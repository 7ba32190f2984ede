import KlteCommon.Analysis.HashedBytes
import KlteCommon.Analysis.Identity

/-!
# A challenge for every enrollment

`fingerprint_pre_enroll` opens an enrollment window with a challenge, `fingerprint_post_enroll`
closes it. Challenges of different windows are to be different. A challenge is the hash of the string
at `tz.auth_token`, which a window neither uses up nor renews: `vcs_update_auth_token` does that, when
`vcs_uninit` finds an auth session open.

The ladder: a challenge is the hash of what its thread has found (`issuedProtocol_valid`,
`challenge_of_issued`), and that is what was stored last (`stringFound`); so the challenges of two
windows are fresh exactly when the strings were renewed in between (`freshChallenge_iff`), and
without a new token the second window repeats the first one's challenge (`repeated_challenge`).
-/

set_option autoImplicit false

namespace KlteCommon.Analysis

open KlteCommon.Computation KlteCommon.Fingerprint

/-! ## What is observed -/

/-- The auth token after the events of a log. -/
def tokenAt (m : Mem) : HalLog → Bytes authTokenLength
  | [] => m.tz.authToken
  | (_, .op o _) :: log => authTokenAfter (tokenAt m log) o
  | _ :: log => tokenAt m log

/-- The token of the auth session after the events of a log. -/
def sessionTokenAt (m : Mem) : HalLog → Bytes authSessionTokenLength
  | [] => m.tz.authSessionToken
  | (_, .op o _) :: log => authSessionTokenAfter (sessionTokenAt m log) o
  | _ :: log => sessionTokenAt m log

/-- The log when thread `t` read variable `v` last. -/
def lastRead (v : Var) (t : Tid) : HalLog → HalLog
  | [] => []
  | (u, .op (.load w) _) :: log => if u = t ∧ w = v then log else lastRead v t log
  | _ :: log => lastRead v t log

/-- The string that thread `t` found at `tz.auth_token`. -/
def stringFound (m : Mem) (t : Tid) (log : HalLog) : List UInt8 :=
  ((tokenAt m (lastRead .authToken t log)).toList ++
    (sessionTokenAt m (lastRead .authSessionToken t log)).toList).takeWhile (· != 0)

/-- Behind `log`, thread `t`, a `fingerprint_pre_enroll`, has issued challenge `c`. -/
structure Issued (s : Hal) (t : Tid) (c : UInt64) (log : HalLog) : Prop where
  entry : s.entry t = some .fingerprintPreEnroll
  issues : (t, .op (.store .challenge c) ()) :: log <:+ s.log

/-- Thread `t` has issued challenge `c`, then a `fingerprint_post_enroll` has closed the window, and
then thread `u` began and has issued challenge `d`. -/
structure Windows (s : Hal) (t : Tid) (c : UInt64) (log : HalLog) (u : Tid) (d : UInt64)
    (log' : HalLog) : Prop where
  first : Issued s t c log
  second : Issued s u d log'
  closed : ∃ v closing, s.entry v = some .fingerprintPostEnroll ∧
    (t, .op (.store .challenge c) ()) :: log <:+ closing ∧
    (v, .op (.store .challenge 0) ()) :: closing <:+ log' ∧ eventsOf u closing = []

/-- The challenges of two windows are different, unless the digests of their tokens collide. -/
def FreshChallenge (m : Mem) (t : Tid) (c : UInt64) (log : HalLog) (u : Tid) (d : UInt64)
    (log' : HalLog) : Prop :=
  c ≠ d ∨ Collide (stringFound m t log) (stringFound m u log')

/-- The later window's call found another token than the earlier one's. -/
def TokenRenewed (m : Mem) (t : Tid) (log : HalLog) (u : Tid) (log' : HalLog) : Prop :=
  stringFound m t log ≠ stringFound m u log'

/-- A token is stored or cleared. -/
def renews : HalEvent → Bool
  | .op (.store .authToken _) _ | .op (.store .authSessionToken _) _ | .op .clearTz _ => true
  | _ => false

/-! ## One thread -/

/-- What a `fingerprint_pre_enroll` has read of the tokens. -/
structure TokensRead where
  token : Option (Bytes authTokenLength)
  sessionToken : Option (Bytes authSessionTokenLength)

/-- One event; the challenge that is stored is the hash of what was read. -/
def TokensRead.next (x : TokensRead) : HalEvent → Option TokensRead
  | .op (.load .authToken) r => some { x with token := some r }
  | .op (.load .authSessionToken) r => some { x with sessionToken := some r }
  | .op (.store .challenge c) _ =>
    if ∃ token ∈ x.token, ∃ sessionToken ∈ x.sessionToken,
      c = hashString (token.toList ++ sessionToken.toList) then some x else none
  | .op _ _ | .enter _ => some x
  | .done _ _ => none

/-- The protocol of a `fingerprint_pre_enroll`. -/
@[simps] def issuedProtocol : Protocol Resp Ret TokensRead where
  assume _ _ := True
  next x e := x.next e
  pre c _ := c = .fingerprintPreEnroll
  post _ _ _ _ := True

section

variable (x y : TokensRead) (c : Call) (r : Ret c) (e : HalEvent)

/-- Only `fingerprint_pre_enroll` is called, and it may end in any stage. -/
@[simp ↓] theorem callRule_issued (Q : Ret c → TokensRead → Prop) :
    issuedProtocol.callRule fine c Q x ↔ c = .fingerprintPreEnroll ∧ ∀ r y, Q r y := by
  rw [Protocol.callRule_entered rfl trivial rfl]
  simp

end

section bodies

attribute [local simp ↓] load store op call send ionSbuffer sameIonSbuffer

/-- Its body keeps to the protocol. -/
theorem issuedProtocol_valid : issuedProtocol.Valid fine body := by
  rintro c _ x rfl
  simp [body, fingerprintPreEnroll, TokensRead.next]

end bodies

/-! ## Along the log -/

section reads

variable {m : Mem} {t u : Tid} {v : Var} {log : HalLog}

/-- The read that was done last. -/
@[simp] theorem lastRead_self (v : Var) (t : Tid) (r : v.Ty) (log : HalLog) :
    lastRead v t ((t, .op (.load v) r) :: log) = log := if_pos ⟨rfl, rfl⟩

/-- Anything but a read of the variable by the thread. -/
theorem lastRead_of_ne {e : HalEvent} (h : u ≠ t ∨ ∀ r, e ≠ .op (.load v) r) (log : HalLog) :
    lastRead v t ((u, e) :: log) = lastRead v t log := by
  cases e with
  | op o r =>
    cases o with
    | load w =>
      refine if_neg ?_
      rintro ⟨rfl, rfl⟩
      obtain h | h := h
      · exact h rfl
      · exact h r rfl
    | _ => rfl
  | _ => rfl

/-- The thread has read `r` of the variable last, which is what the log says. -/
structure Found (v : Var) (now : HalLog → v.Ty) (t : Tid) (log : HalLog) (r : v.Ty) : Prop where
  read : r = now (lastRead v t log)
  behind : (t, .op (.load v) r) :: lastRead v t log <:+ log

/-- What was found stays found, until the thread reads again. -/
theorem Found.step {now : HalLog → v.Ty} {r : v.Ty} {e : HalEvent} (h : Found v now t log r)
    (he : u ≠ t ∨ ∀ r, e ≠ .op (.load v) r) : Found v now t ((u, e) :: log) r := by
  have hlast := lastRead_of_ne he log
  exact ⟨hlast ▸ h.read, hlast ▸ h.behind.trans (List.suffix_cons _ _)⟩

/-- A read finds what is there. -/
theorem Found.self {now : HalLog → v.Ty} {r : v.Ty} (hr : r = now log) :
    Found v now t ((t, .op (.load v) r) :: log) r := by
  have hlast := lastRead_self v t r log
  exact ⟨hlast.symm ▸ hr, hlast.symm ▸ List.suffix_refl _⟩

/-- Every read of the tokens found what the log says. -/
structure ReadsTokens (m : Mem) (log : HalLog) : Prop where
  token : ReadsNow .authToken (tokenAt m) log
  sessionToken : ReadsNow .authSessionToken (sessionTokenAt m) log

/-- So it was at every earlier moment. -/
theorem ReadsTokens.suffix {log' : HalLog} (h : ReadsTokens m log) (hs : log' <:+ log) :
    ReadsTokens m log' :=
  ⟨fun t r earlier he => h.token t r earlier (he.trans hs),
    fun t r earlier he => h.sessionToken t r earlier (he.trans hs)⟩

/-- In every run the reads of the tokens find what is there. -/
theorem readsTokens_of_reaches {arrives : Call → Bool} {ok : Hal → Tid → HalEvent → Prop} {s : Hal}
    (h : (Hal.idle m).Reaches fine arrives ok s) : ReadsTokens m s.log := by
  refine ⟨(along_of_reaches (v := .authToken) (tokenAt m) rfl ?_ (fun _ _ _ => rfl) h).2,
    (along_of_reaches (v := .authSessionToken) (sessionTokenAt m) rfl ?_ (fun _ _ _ => rfl) h).2⟩
  · intro fin t ch o r m₁ m₂ log hact hm
    exact (act_sessionEffect hact).token.trans (congrArg (authTokenAfter · o) hm)
  · intro fin t ch o r m₁ m₂ log hact hm
    exact (act_sessionEffect hact).sessionToken.trans (congrArg (authSessionTokenAfter · o) hm)

/-- What a thread has read is what the log says it found. -/
structure TokensRead.Tells (m : Mem) (t : Tid) (log : HalLog) (x : TokensRead) : Prop where
  token : ∀ r ∈ x.token, Found .authToken (tokenAt m) t log r
  sessionToken : ∀ r ∈ x.sessionToken, Found .authSessionToken (sessionTokenAt m) t log r

/-- An event that reads neither. -/
theorem TokensRead.Tells.keep {x : TokensRead} {e : HalEvent} (h : x.Tells m t log)
    (he : u ≠ t ∨ (∀ r, e ≠ .op (.load .authToken) r) ∧ ∀ r, e ≠ .op (.load .authSessionToken) r) :
    x.Tells m t ((u, e) :: log) :=
  ⟨fun r hr => (h.token r hr).step (he.imp_right And.left),
    fun r hr => (h.sessionToken r hr).step (he.imp_right And.right)⟩

/-- What is issued is the hash of what was read. -/
theorem TokensRead.next_store {x y : TokensRead} {c : UInt64} {r : Unit}
    (h : x.next (.op (.store .challenge c) r) = some y) :
    x = y ∧ ∃ token sessionToken, x.token = some token ∧ x.sessionToken = some sessionToken ∧
      c = hashString (token.toList ++ sessionToken.toList) := by
  obtain ⟨⟨token, htoken, sessionToken, hsession, hhash⟩, rfl⟩ : (∃ token, x.token = some token ∧
      ∃ sessionToken, x.sessionToken = some sessionToken ∧
        c = hashString (token.toList ++ sessionToken.toList)) ∧ x = y := by
    simpa [TokensRead.next] using h
  exact ⟨rfl, token, sessionToken, htoken, hsession, hhash⟩

/-- What a stage tells of the log it still tells after one more event. -/
theorem TokensRead.Tells.next {x y : TokensRead} {e : HalEvent} (h : x.Tells m t log)
    (htoken : ∀ r, e = .op (.load .authToken) r → r = tokenAt m log)
    (hsession : ∀ r, e = .op (.load .authSessionToken) r → r = sessionTokenAt m log)
    (hy : x.next e = some y) : y.Tells m t ((t, e) :: log) := by
  cases e with
  | op o r =>
    cases o with
    | load v =>
      cases v with
      | authToken =>
        cases hy
        refine ⟨fun r' hr' => ?_, fun r' hr' => (h.sessionToken r' hr').step (.inr nofun)⟩
        cases hr'
        exact .self (htoken r rfl)
      | authSessionToken =>
        cases hy
        refine ⟨fun r' hr' => (h.token r' hr').step (.inr nofun), fun r' hr' => ?_⟩
        cases hr'
        exact .self (hsession r rfl)
      | _ =>
        cases hy
        exact h.keep (.inr ⟨nofun, nofun⟩)
    | store v a =>
      cases v with
      | challenge =>
        obtain ⟨rfl, -⟩ := next_store hy
        exact h.keep (.inr ⟨nofun, nofun⟩)
      | _ =>
        cases hy
        exact h.keep (.inr ⟨nofun, nofun⟩)
    | _ =>
      cases hy
      exact h.keep (.inr ⟨nofun, nofun⟩)
  | enter c =>
    cases hy
    exact h.keep (.inr ⟨nofun, nofun⟩)
  | done c r => cases hy

/-- **What a thread has found** can be read off the log. -/
theorem tells_of_stage {y : TokensRead} (hreads : ReadsTokens m log)
    (h : issuedProtocol.stage ⟨none, none⟩ (eventsOf t log) = some y) : y.Tells m t log := by
  induction log generalizing y with
  | nil =>
    cases h
    exact ⟨nofun, nofun⟩
  | cons te log ih =>
    obtain ⟨u, e⟩ := te
    have hlog := hreads.suffix (List.suffix_cons _ _)
    rw [eventsOf_cons] at h
    by_cases hut : u = t
    · subst hut
      rw [if_pos rfl] at h
      obtain ⟨x, hx, hy⟩ := Option.bind_eq_some_iff.mp h
      exact (ih hlog hx).next (fun r he => hreads.token u r log (he ▸ List.suffix_refl _))
        (fun r he => hreads.sessionToken u r log (he ▸ List.suffix_refl _)) hy
    · rw [if_neg hut] at h
      exact (ih hlog h).keep (.inl hut)

end reads

/-! ## Every run -/

section runs

variable {m : Mem} {arrives : Call → Bool} {s : Hal} {t u : Tid} {c d : UInt64} {log log' : HalLog}

/-- A challenge is the hash of the tokens that were found. -/
theorem found_of_issued (h : (Hal.idle m).Reaches fine arrives (fun _ _ _ => True) s)
    (hc : Issued s t c log) : ∃ token sessionToken,
      Found .authToken (tokenAt m) t log token ∧
      Found .authSessionToken (sessionTokenAt m) t log sessionToken ∧
      c = hashString (token.toList ++ sessionToken.toList) := by
  obtain ⟨later, hlater⟩ := hc.issues
  obtain ⟨x, y, hx, hy⟩ := h.next_at issuedProtocol_valid (Q := fun _ _ => True)
    (x := ⟨none, none⟩) (A := fun _ => True) (by simp) (fun _ _ _ => trivial)
    (fun _ _ _ _ _ => trivial) (fun _ => rfl) rfl hc.entry hlater.symm
  have hsuffix : log <:+ s.log := (List.suffix_cons _ _).trans hc.issues
  have htells := tells_of_stage ((readsTokens_of_reaches h).suffix hsuffix) hx
  obtain ⟨-, token, sessionToken, htoken, hsession, hhash⟩ := TokensRead.next_store (r := ()) hy
  exact ⟨token, sessionToken, htells.token token htoken, htells.sessionToken _ hsession, hhash⟩

/-- It is the truncated digest of the string. -/
theorem challenge_of_issued (h : (Hal.idle m).Reaches fine arrives (fun _ _ _ => True) s)
    (hc : Issued s t c log) : c.toNat = (Standard.Sha1.digest (stringFound m t log)).first64 := by
  obtain ⟨token, sessionToken, htoken, hsession, rfl⟩ := found_of_issued h hc
  rw [stringFound, ← htoken.read, ← hsession.read]
  refine hashString_toNat ?_
  rw [List.length_append, Vector.length_toList, Vector.length_toList]
  decide

/-- **A challenge is fresh exactly when the token was renewed.** In every run, whatever threads it
has, for any two windows of it. -/
theorem freshChallenge_iff (h : (Hal.idle m).Reaches fine arrives (fun _ _ _ => True) s)
    (hw : Windows s t c log u d log') :
    FreshChallenge m t c log u d log' ↔ TokenRenewed m t log u log' := by
  constructor
  · rintro (hne | hcollide) heq
    · refine hne (UInt64.toNat_inj.mp ?_)
      rw [challenge_of_issued h hw.first, challenge_of_issued h hw.second, heq]
    · exact hcollide.differ heq
  · intro hnew
    by_cases hcd : c = d
    · subst hcd
      refine .inr ⟨hnew, ?_⟩
      rw [← challenge_of_issued h hw.first, ← challenge_of_issued h hw.second]
    · exact .inl hcd

/-- What a thread that had done nothing by some point has read, it has read after that. -/
theorem Found.suffix {v : Var} {now : HalLog → v.Ty} {r : v.Ty} (hf : Found v now t log r)
    {before : HalLog} (hbefore : before <:+ log) (hnone : eventsOf t before = []) :
    before <:+ lastRead v t log := by
  obtain hle | hle := List.suffix_or_suffix_of_suffix hbefore hf.behind
  · obtain heq | hle := List.suffix_cons_iff.mp hle
    · simp [heq, eventsOf_cons] at hnone
    · exact hle
  · obtain ⟨since, rfl⟩ := hle
    simp [eventsOf] at hnone

/-- Tokens that nobody renews stay. -/
theorem tokens_append {since before : HalLog} (hquiet : ∀ te ∈ since, renews te.2 = false) :
    tokenAt m (since ++ before) = tokenAt m before ∧
      sessionTokenAt m (since ++ before) = sessionTokenAt m before := by
  induction since with
  | nil => exact ⟨rfl, rfl⟩
  | cons te since ih =>
    obtain ⟨hte, hsince⟩ := List.forall_mem_cons.mp hquiet
    obtain ⟨htoken, hsession⟩ := ih hsince
    obtain ⟨u, e⟩ := te
    cases e with
    | op o r =>
      cases o with
      | store v a => cases v <;> first | cases hte; done | exact ⟨htoken, hsession⟩
      | clearTz => cases hte
      | _ => exact ⟨htoken, hsession⟩
    | _ => exact ⟨htoken, hsession⟩

/-- The tokens are kept as long as nothing renews them. -/
theorem tokens_kept {since before point : HalLog} (hquiet : ∀ te ∈ since, renews te.2 = false)
    (hbefore : before <:+ point) (hat : point <:+ since ++ before) :
    tokenAt m point = tokenAt m before ∧ sessionTokenAt m point = sessionTokenAt m before := by
  obtain ⟨part, rfl⟩ := hbefore
  obtain ⟨rest, hrest⟩ := hat
  rw [← List.append_assoc] at hrest
  obtain rfl := List.append_cancel_right hrest
  exact tokens_append fun te hte => hquiet te (List.mem_append_right _ hte)

/-- Who has no event had none before. -/
theorem eventsOf_suffix {log log' : HalLog} (h : log <:+ log') (hnone : eventsOf t log' = []) :
    eventsOf t log = [] := by
  obtain ⟨since, rfl⟩ := h
  rw [eventsOf, List.filterMap_append, List.append_eq_nil_iff] at hnone
  exact hnone.2

/-- **Without a new token the challenge is repeated**: when nothing renews the tokens from before
the first window's call began, the second window has the same challenge. -/
theorem repeated_challenge (h : (Hal.idle m).Reaches fine arrives (fun _ _ _ => True) s)
    (hw : Windows s t c log u d log') {since before : HalLog} (hlog' : log' = since ++ before)
    (hbefore : eventsOf t before = []) (hquiet : ∀ te ∈ since, renews te.2 = false) : c = d := by
  obtain ⟨token, sessionToken, htoken, hsession, rfl⟩ := found_of_issued h hw.first
  obtain ⟨token', sessionToken', htoken', hsession', rfl⟩ := found_of_issued h hw.second
  obtain ⟨v, closing, -, hfirst, hclosing, hnone⟩ := hw.closed
  have hclosing : closing <:+ log' := (List.suffix_cons _ _).trans hclosing
  have hlog : log <:+ closing := (List.suffix_cons _ _).trans hfirst
  have hbehind : before <:+ log' := ⟨since, hlog'.symm⟩
  -- the first window's call read the tokens after `before`, and the second began later still
  have hbeforeLog : before <:+ log := by
    obtain hle | hle := List.suffix_or_suffix_of_suffix hbehind (hlog.trans hclosing)
    · exact hle
    · have hread := eventsOf_suffix (htoken.behind.trans hle) hbefore
      simp [eventsOf_cons] at hread
  have hbefore' := eventsOf_suffix (hbeforeLog.trans hlog) hnone
  have hkept : ∀ {point : HalLog}, before <:+ point → point <:+ log' →
      tokenAt m point = tokenAt m before ∧ sessionTokenAt m point = sessionTokenAt m before := by
    intro point hle hat
    exact tokens_kept hquiet hle (hlog' ▸ hat)
  have hreads : ∀ {v : Var} {now : HalLog → v.Ty} {r : v.Ty} {t : Tid} {log : HalLog},
      Found v now t log r → lastRead v t log <:+ log :=
    fun hf => (List.suffix_cons _ _).trans hf.behind
  have hlogs := hlog.trans hclosing
  rw [htoken.read, hsession.read, htoken'.read, hsession'.read,
    (hkept (htoken.suffix hbeforeLog hbefore) ((hreads htoken).trans hlogs)).1,
    (hkept (hsession.suffix hbeforeLog hbefore) ((hreads hsession).trans hlogs)).2,
    (hkept (htoken'.suffix hbehind hbefore') (hreads htoken')).1,
    (hkept (hsession'.suffix hbehind hbefore') (hreads hsession')).2]

end runs

/-- A device with an open auth session and no token yet. -/
def sessionDevice : Mem :=
  { Mem.started with tz := { Mem.started.tz with authSessionOpend := true } }

/-- A window is opened and closed. -/
def openAndClose : List (Label hal) :=
  .arrive 1 .fingerprintPreEnroll :: ticks 1 6 ++ .arrive 2 .fingerprintPostEnroll :: ticks 2 4

/-- `vcs_uninit` fetches a new token. -/
def renewToken : List (Label hal) :=
  .arrive 3 .vcsUninit :: ticks 3 5 ++ answer 3 (.good 0) ++ answer 3 (.good 1) ++ ticks 3 1 ++
    answer 3 (.good 0) ++ ticks 3 7

/-- Another window is opened. -/
def openAgain : List (Label hal) := .arrive 4 .fingerprintPreEnroll :: ticks 4 6

/-- The windows of threads 1 and 4, found in a log. -/
theorem windows_of_drop {s : Hal} {c d : UInt64} {log closing log' : HalLog} {i j k : ℕ}
    (hentry : s.entry 1 = some .fingerprintPreEnroll ∧ s.entry 2 = some .fingerprintPostEnroll ∧
      s.entry 4 = some .fingerprintPreEnroll)
    (hsecond : s.log.drop i = (4, .op (.store .challenge d) ()) :: log')
    (hclosed : log'.drop j = (2, .op (.store .challenge 0) ()) :: closing)
    (hfirst : closing.drop k = (1, .op (.store .challenge c) ()) :: log)
    (hnone : eventsOf 4 closing = []) : Windows s 1 c log 4 d log' := by
  have hlog' := hsecond ▸ List.drop_suffix i s.log
  have hclosing := hclosed ▸ List.drop_suffix j log'
  have hlog := hfirst ▸ List.drop_suffix k closing
  refine ⟨⟨hentry.1, ?_⟩, ⟨hentry.2.2, hlog'⟩, 2, closing, hentry.2.1, hlog, hclosing, hnone⟩
  exact hlog.trans <| (List.suffix_cons _ _).trans <| hclosing.trans <|
    (List.suffix_cons _ _).trans hlog'

set_option maxRecDepth 2000 in
/-- A token is fetched between the windows: the second one's challenge is fresh. -/
theorem freshChallenge_renewed : ∃ s c log d log',
    (Hal.idle sessionDevice).Reaches fine (fun _ => true) (fun _ _ _ => True) s ∧
      Windows s 1 c log 4 d log' ∧ FreshChallenge sessionDevice 1 c log 4 d log' := by
  obtain ⟨s, hs, hentry, d, log', hsecond, closing, hclosed, c, log, hfirst, hnone, hfound, hfound'⟩ :
      ∃ s, (Hal.idle sessionDevice).exec fine (fun _ => true) (fun _ _ _ => true)
        (openAndClose ++ renewToken ++ openAgain) = some s ∧
      (s.entry 1 = some .fingerprintPreEnroll ∧ s.entry 2 = some .fingerprintPostEnroll ∧
        s.entry 4 = some .fingerprintPreEnroll) ∧
      ∃ d log', s.log.drop 1 = (4, .op (.store .challenge d) ()) :: log' ∧
      ∃ closing, log'.drop 21 = (2, .op (.store .challenge 0) ()) :: closing ∧
      ∃ c log, closing.drop 3 = (1, .op (.store .challenge c) ()) :: log ∧
        eventsOf 4 closing = [] ∧ stringFound sessionDevice 1 log = [] ∧
        stringFound sessionDevice 4 log' = [1] :=
    ⟨_, rfl, ⟨rfl, rfl, rfl⟩, _, _, rfl, _, rfl, _, _, rfl, rfl, rfl, rfl⟩
  have hr := State.Reaches.refl.exec (fun _ _ _ _ => trivial) hs
  have hw := windows_of_drop hentry hsecond hclosed hfirst hnone
  refine ⟨s, c, log, d, log', hr, hw, (freshChallenge_iff hr hw).mpr ?_⟩
  rw [TokenRenewed, hfound, hfound']
  decide

/-- **The same challenge again**: no token is fetched between the windows. -/
theorem repeated_window : ∃ s c log d log',
    (Hal.idle sessionDevice).Reaches fine (fun _ => true) (fun _ _ _ => True) s ∧
      Windows s 1 c log 4 d log' ∧ s.log.all (fun te => !renews te.2) = true ∧
      ¬ FreshChallenge sessionDevice 1 c log 4 d log' := by
  obtain ⟨s, hs, hentry, d, log', hsecond, closing, hclosed, c, log, hfirst, hnone, hfound, hcd,
      hkept⟩ :
      ∃ s, (Hal.idle sessionDevice).exec fine (fun _ => true) (fun _ _ _ => true)
        (openAndClose ++ openAgain) = some s ∧
      (s.entry 1 = some .fingerprintPreEnroll ∧ s.entry 2 = some .fingerprintPostEnroll ∧
        s.entry 4 = some .fingerprintPreEnroll) ∧
      ∃ d log', s.log.drop 1 = (4, .op (.store .challenge d) ()) :: log' ∧
      ∃ closing, log'.drop 5 = (2, .op (.store .challenge 0) ()) :: closing ∧
      ∃ c log, closing.drop 3 = (1, .op (.store .challenge c) ()) :: log ∧
        eventsOf 4 closing = [] ∧
        stringFound sessionDevice 1 log = stringFound sessionDevice 4 log' ∧ c = d ∧
        s.log.all (fun te => !renews te.2) = true :=
    ⟨_, rfl, ⟨rfl, rfl, rfl⟩, _, _, rfl, _, rfl, _, _, rfl, rfl, rfl, rfl, rfl⟩
  have hw := windows_of_drop hentry hsecond hclosed hfirst hnone
  refine ⟨s, c, log, d, log', State.Reaches.refl.exec (fun _ _ _ _ => trivial) hs, hw, hkept, ?_⟩
  rintro (hne | hcollide)
  · exact hne hcd
  · exact hcollide.differ hfound

end KlteCommon.Analysis
