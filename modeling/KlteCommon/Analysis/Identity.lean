import KlteCommon.Computation.Paths
import KlteCommon.Fingerprint.Effects
import KlteCommon.Fingerprint.Owners

/-!
# Whose finger it is

A token that reports a finger names a user. The device keeps one secure user id for all fingers,
and neither a slot nor a row has one of its own; so the user a token names is not the one the
finger was enrolled for, but the one whose token a `fingerprint_enroll` found to carry the
device's challenge last. `identity` is that user along a log.

`Knows` follows one thread: a report carries what the thread read (`knowsProtocol_valid`), and
`identityRead_of_reaches` ties what it read to the log. `tokensNameLastUser` puts the two together
for every run; `other_user` is a run in which a finger of one user is reported for another.
-/

set_option autoImplicit false

namespace KlteCommon.Analysis

open KlteCommon.Computation KlteCommon.Fingerprint

/-- What has happened, newest first. -/
abbrev HalLog := List (Tid × HalEvent)

/-! ## What is observed -/

/-- The token a call was made with. -/
def tokenOf : Call → Option HwAuthToken
  | .fingerprintEnroll hat _ => hat
  | _ => none

/-- The device's secure user id, for a device that began with memory `m`. -/
def identity (m : Mem) : HalLog → UInt64
  | [] => m.vdev.secureUserId
  | (_, .op (.store .secureUserId u) _) :: _ => u
  | (_, .op .clearDevice _) :: _ => 0
  | _ :: log => identity m log

/-- The device's secure user id when thread `t` last read it. -/
def identityRead (m : Mem) (t : Tid) : HalLog → Option UInt64
  | [] => none
  | (u, .op (.load .secureUserId) _) :: log =>
    if u = t then some (identity m log) else identityRead m t log
  | _ :: log => identityRead m t log

/-- The tokens name the user whose enrollment token was found good last: what is stored is the
user id of a token in which a `fingerprint_enroll` found the device's challenge, and what is
reported is what was stored last when the report's thread looked. -/
structure TokensNameLastUser (m : Mem) (s : Hal) : Prop where
  stored : ∀ later earlier t u r,
    s.log = later ++ (t, .op (.store .secureUserId u) r) :: earlier →
    ∃ h timeout, s.entry t = some (.fingerprintEnroll (some h) timeout) ∧ u = h.userId ∧
      (t, .op (.load .challenge) h.challenge) ∈ earlier
  reported : ∀ later earlier t fid gid hat r,
    s.log = later ++ (t, .op (.notify (.authenticated fid gid hat)) r) :: earlier →
    identityRead m t earlier = some hat.userId

/-- The thread that filled slot `fid` last. -/
def filledBy (fid : ℤ) : HalLog → Option Tid
  | [] => none
  | (t, .op (.store (.fingerExist idx) x) _) :: log =>
    if idx = fid then if x then some t else none else filledBy fid log
  | (_, .op (.store (.finger idx) _) _) :: log => if idx = fid then none else filledBy fid log
  | (_, .op .clearTz _) :: _ => none
  | _ :: log => filledBy fid log

/-- The thread that created thread `w`. -/
def createdBy (w : Tid) : HalLog → Option Tid
  | [] => none
  | (t, .op (.pthreadCreate _) (.ok u)) :: log => if u = w then some t else createdBy w log
  | _ :: log => createdBy w log

/-- The token that authorized the enrollment of the finger in slot `fid`. -/
def authorizedBy (s : Hal) (log : HalLog) (fid : ℤ) : Option HwAuthToken :=
  (filledBy fid log).bind fun w => (createdBy w log).bind fun t => (s.entry t).bind tokenOf

/-- The tokens name the user the finger was enrolled for. -/
def TokensNameOwner (s : Hal) : Prop :=
  ∀ later earlier t fid gid hat r,
    s.log = later ++ (t, .op (.notify (.authenticated fid gid hat)) r) :: earlier →
    ∀ h, authorizedBy s earlier fid = some h → hat.userId = h.userId

/-! ## One thread -/

/-- Whether a thread has found the device's challenge in its token, and the secure user id it has
read last. -/
structure Knows where
  matched : Bool
  read : Option UInt64

/-- What a thread knows after an event; it stores only the user id of a token with the device's
challenge, and reports only the id it has read. -/
def Knows.next (token : Option HwAuthToken) (x : Knows) : HalEvent → Option Knows
  | .op (.load .challenge) r =>
    some { x with matched := x.matched || token.any (·.challenge == r) }
  | .op (.load .secureUserId) r => some { x with read := some r }
  | .op (.store .secureUserId u) _ =>
    if x.matched = true ∧ token.any (·.userId == u) = true then some x else none
  | .op (.notify (.authenticated _ _ hat)) _ => if x.read = some hat.userId then some x else none
  | .op _ _ | .enter _ => some x
  | .done _ _ => none

/-- The protocol of a thread that was started with this token, or with none. -/
@[simps] def knowsProtocol (token : Option HwAuthToken) : Protocol Resp Ret Knows where
  assume _ _ := True
  next x e := x.next token e
  pre c _ := ∀ hat timeout, c = .fingerprintEnroll hat timeout → hat = token
  post _ _ _ _ := True

section

variable (token : Option HwAuthToken) (x y : Knows) (c : Call) (r : Ret c) (e : HalEvent)

/-- A call may end in any stage. -/
@[simp ↓] theorem callRule_knows (Q : Ret c → Knows → Prop) :
    (knowsProtocol token).callRule fine c Q x ↔
      (knowsProtocol token).pre c x ∧ ∀ r y, Q r y := by
  rw [Protocol.callRule_entered rfl trivial rfl]
  simp

end

/-! ## What a token is made of -/

/-- The operations a token depends on: those on the operation id, the stores of the secure user
id, the creation of the worker and the report itself. -/
@[reducible] def tokenOp : Op → Bool
  | .load .opId | .store .opId _ | .store .secureUserId _ => true
  | .pthreadCreate .vcsAuthenticate | .notify (.authenticated _ _ _) => true
  | _ => false

/-- The procedures that perform them. -/
@[reducible] def tokenCall : Call → Bool
  | .fingerprintAuthenticate _ | .fingerprintEnroll _ _ => true
  | .vcsStartAuthenticate | .sendAuthenticatedNotice _ => true
  | _ => false

/-- The procedures that others of them call: not the entry points, nor what only they call. -/
@[reducible] def innerCall : Call → Bool
  | .fingerprintAuthenticate _ | .fingerprintEnroll _ _ | .vcsStartAuthenticate => false
  | _ => true

/-- The procedures that have nothing to do with tokens do nothing with them. -/
theorem tokenCall_within {c : Call} (hc : tokenCall c = false) :
    (body c).Within (tokenOp · = false) (innerCall · = true) := by
  refine (body_within c).mono (fun o ho => ?_) (fun d hd => ?_)
  · cases htoken : tokenOp o with
    | false => rfl
    | true =>
      unfold tokenOp at htoken
      split at htoken
      all_goals first
        | cases htoken; done
        | (cases c <;> first | cases ho; done | cases hc)
  · cases d <;> first | rfl | (cases c <;> first | cases hd; done | cases hc)

section bodies

attribute [local simp ↓] load store op call send ionSbuffer sameIonSbuffer

/-- An operation that has nothing to do with tokens is allowed in every stage. -/
theorem knows_next_of_not_tokenOp {token : Option HwAuthToken} {o : Op} (ho : tokenOp o = false)
    (r : Resp o) (x : Knows) : ∃ y, x.next token (.op o r) = some y := by
  cases o with
  | load v => cases v <;> exact ⟨_, rfl⟩
  | store v a => cases v <;> first | cases ho; done | exact ⟨_, rfl⟩
  | notify msg => cases msg <;> first | cases ho; done | exact ⟨_, rfl⟩
  | _ => exact ⟨_, rfl⟩

/-- The scan for a free slot tells a thread nothing. -/
theorem knows_firstFreeSlot {token : Option HwAuthToken} {n : ℕ} {idx : ℤ}
    {Q : ℤ → Knows → Prop} {x : Knows} (hQ : ∀ a, Q a x) :
    (knowsProtocol token).Follows fine (firstFreeSlot n idx) Q x := by
  refine .frame (firstFreeSlot_within n idx) (fun o ho r => ?_) hQ
  cases o with
  | load v => cases v <;> first | rfl | cases ho
  | _ => cases ho

/-- **One thread.** Whatever it was started with, it stores and reports only what it knows. -/
theorem knowsProtocol_valid (token : Option HwAuthToken) :
    (knowsProtocol token).Valid fine body := by
  intro c _ x hc
  by_cases htoken : tokenCall c = false
  · refine .keeps (T := fun _ => True) (fun _ _ => rfl) (fun o r x ho _ => ?_) ?_
      (fun _ _ _ => trivial) (tokenCall_within htoken) trivial
    · obtain ⟨y, hy⟩ := knows_next_of_not_tokenOp ho r x
      exact ⟨y, hy, trivial⟩
    · rintro c x hinner -
      refine ⟨x, rfl, ?_, fun _ _ _ => trivial⟩
      rintro hat timeout rfl
      cases hinner
  cases c <;> first | exact absurd rfl htoken | skip
  case sendAuthenticatedNotice => simp [body, sendAuthenticatedNotice, Knows.next]
  case fingerprintAuthenticate => simp [body, fingerprintAuthenticate, Knows.next]
  case vcsStartAuthenticate =>
    simp [body, vcsStartAuthenticate, awaitIdle, Knows.next]
    rintro _ _ _ _ _ _ _ _ _ _ _ _ _ - (_ | _) <;> simp
  case fingerprintEnroll hat timeout _ =>
    obtain rfl := hc hat timeout rfl
    cases hat with
    | none => simp [body, fingerprintEnroll]
    | some h => simp [body, fingerprintEnroll, Knows.next, knows_firstFreeSlot]

end bodies

/-! ## Along the log -/

/-- The identity behind an operation. -/
theorem identity_cons (m : Mem) (t : Tid) (o : Op) (r : Resp o) (log : HalLog) :
    identity m ((t, .op o r) :: log) =
      (vdevAfter { Device.zero with secureUserId := identity m log } o).secureUserId := by
  cases o with
  | store v a => cases v <;> rfl
  | _ => rfl

/-- What others do does not change what a thread has read. -/
theorem identityRead_of_ne {m : Mem} {t u : Tid} (hut : u ≠ t) (e : HalEvent) (log : HalLog) :
    identityRead m t ((u, e) :: log) = identityRead m t log := by
  cases e with
  | op o r =>
    cases o with
    | load v => cases v <;> first | exact if_neg hut | rfl
    | _ => rfl
  | _ => rfl

/-- What a thread knows after an event that was allowed. -/
theorem Knows.next_cases {m : Mem} {t : Tid} {token : Option HwAuthToken} {x y : Knows}
    {e : HalEvent} {log : HalLog} (hread : x.read = identityRead m t log)
    (hload : ∀ u, e = .op (.load .secureUserId) u → u = identity m log)
    (h : x.next token e = some y) :
    y.read = identityRead m t ((t, e) :: log) ∧
      (y.matched = true → x.matched = true ∨
        ∃ h, token = some h ∧ e = .op (.load .challenge) h.challenge) := by
  cases e with
  | enter c =>
    cases h
    exact ⟨hread, .inl⟩
  | done c r => cases h
  | op o r =>
    cases o with
    | load v =>
      cases v with
      | challenge =>
        cases h
        refine ⟨hread, fun hm => ?_⟩
        cases token with
        | none => simpa using hm
        | some h =>
          obtain hm | hm := Bool.or_eq_true_iff.mp hm
          · exact .inl hm
          · exact .inr ⟨h, rfl, by rw [beq_iff_eq.mp hm]⟩
      | secureUserId =>
        cases h
        refine ⟨?_, .inl⟩
        rw [hload r rfl]
        exact (if_pos rfl).symm
      | _ =>
        cases h
        exact ⟨hread, .inl⟩
    | store v a =>
      cases v with
      | secureUserId =>
        simp only [Knows.next] at h
        split at h <;> cases h
        exact ⟨hread, .inl⟩
      | _ =>
        cases h
        exact ⟨hread, .inl⟩
    | notify msg =>
      cases msg with
      | authenticated fid gid hat =>
        simp only [Knows.next] at h
        split at h <;> cases h
        exact ⟨hread, .inl⟩
      | _ =>
        cases h
        exact ⟨hread, .inl⟩
    | _ =>
      cases h
      exact ⟨hread, .inl⟩

/-- Every read of the secure user id by some point of the log found what the log says. -/
def ReadsIdentity (m : Mem) (log : HalLog) : Prop :=
  ∀ t u earlier, (t, .op (.load .secureUserId) u) :: earlier <:+ log → u = identity m earlier

/-- So it was at every earlier moment. -/
theorem ReadsIdentity.suffix {m : Mem} {log log' : HalLog} (h : ReadsIdentity m log)
    (hs : log' <:+ log) : ReadsIdentity m log' :=
  fun t u earlier he => h t u earlier (he.trans hs)

/-- What a thread knows can be read off the log. -/
theorem knows_of_stage {m : Mem} {t : Tid} {token : Option HwAuthToken} {log : HalLog} {y : Knows}
    (hreads : ReadsIdentity m log)
    (h : (knowsProtocol token).stage ⟨false, none⟩ (eventsOf t log) = some y) :
    y.read = identityRead m t log ∧ (y.matched = true →
      ∃ h, token = some h ∧ (t, .op (.load .challenge) h.challenge) ∈ log) := by
  induction log generalizing y with
  | nil =>
    obtain rfl : ⟨false, none⟩ = y := by simpa [eventsOf, Protocol.stage] using h
    exact ⟨rfl, by rintro ⟨⟩⟩
  | cons te log ih =>
    obtain ⟨u, e⟩ := te
    have hlog := hreads.suffix (List.suffix_cons _ _)
    rw [eventsOf_cons] at h
    by_cases hut : u = t
    · subst hut
      rw [if_pos rfl] at h
      obtain ⟨x, hx, hy⟩ := Option.bind_eq_some_iff.mp h
      obtain ⟨hread, hmatched⟩ := ih hlog hx
      obtain ⟨hread', hmatched'⟩ := Knows.next_cases hread
        (fun v he => hreads u v log (he ▸ List.suffix_refl _)) hy
      refine ⟨hread', fun hm => ?_⟩
      obtain hm | ⟨hat, htoken, rfl⟩ := hmatched' hm
      · obtain ⟨hat, htoken, hmem⟩ := hmatched hm
        exact ⟨hat, htoken, List.mem_cons_of_mem _ hmem⟩
      · exact ⟨hat, htoken, List.mem_cons_self⟩
    · rw [if_neg hut] at h
      obtain ⟨hread, hmatched⟩ := ih hlog h
      refine ⟨hread.trans (identityRead_of_ne hut e log).symm, fun hm => ?_⟩
      obtain ⟨hat, htoken, hmem⟩ := hmatched hm
      exact ⟨hat, htoken, List.mem_cons_of_mem _ hmem⟩

/-! ## Every run -/

/-- The memory holds the identity the log says, and every read found it. -/
theorem identity_of_reaches {m : Mem} {arrives : Call → Bool}
    {ok : Hal → Tid → HalEvent → Prop} {s : Hal}
    (h : (Hal.idle m).Reaches fine arrives ok s) :
    s.mem.vdev.secureUserId = identity m s.log ∧ ReadsIdentity m s.log := by
  refine h.invariant (I := fun s : Hal => s.mem.vdev.secureUserId = identity m s.log ∧
    ReadsIdentity m s.log) ⟨rfl, ?_⟩ (fun _ _ _ hs _ _ => hs) ?_
  · intro t u earlier he
    simp [Hal.idle] at he
  · rintro s t e s' ⟨hmem, hreads⟩ - hr
    have hlog := hr.log
    rw [hlog]
    refine ⟨?_, fun u v earlier he => ?_⟩
    · cases e with
      | op o r =>
        rw [identity_cons, (effect_of_runs hr).vdev, ← hmem]
        cases o with
        | store v a => cases v <;> rfl
        | _ => rfl
      | enter c => rw [mem_of_enters hr, hmem]; rfl
      | done c r => exact (not_done_of_fine hr).elim
    · obtain he | he := List.suffix_cons_iff.mp he
      · cases he
        rw [load_of_runs hr]
        exact hmem
      · exact hreads u v earlier he

/-- **A token names the user of the last enrollment.** In every run, whatever threads it has. -/
theorem tokensNameLastUser {m : Mem} {arrives : Call → Bool} {s : Hal}
    (h : (Hal.idle m).Reaches fine arrives (fun _ _ _ => True) s) : TokensNameLastUser m s := by
  have hreads := (identity_of_reaches h).2
  -- the thread of an event of the log, and what it knew then
  have hknew : ∀ {later earlier t e}, s.log = later ++ (t, e) :: earlier →
      ∃ c x y, s.entry t = some c ∧ Knows.next (tokenOf c) x e = some y ∧
        x.read = identityRead m t earlier ∧ (x.matched = true →
          ∃ h, tokenOf c = some h ∧ (t, .op (.load .challenge) h.challenge) ∈ earlier) := by
    intro later earlier t e he
    obtain ⟨c, hc⟩ := h.entry_of_log rfl (t := t) (e := e) (by simp [he])
    have hstart : (knowsProtocol (tokenOf c)).Follows fine (.call c .ret) (fun _ _ => True)
        ⟨false, none⟩ := by
      simp
      rintro hat timeout rfl
      rfl
    obtain ⟨x, y, hx, hy⟩ := h.next_at (knowsProtocol_valid _) hstart (A := fun _ => True)
      (fun _ _ _ => trivial) (fun _ _ _ _ _ => trivial) (fun _ => rfl) rfl hc he
    have hsuffix : earlier <:+ s.log := by
      rw [he]
      exact (List.suffix_cons _ _).trans (List.suffix_append _ _)
    exact ⟨c, x, y, hc, hy, knows_of_stage (hreads.suffix hsuffix) hx⟩
  refine ⟨fun later earlier t u r he => ?_, fun later earlier t fid gid hat r he => ?_⟩
  · obtain ⟨c, x, y, hc, hy, -, hmatched⟩ := hknew he
    simp only [Knows.next] at hy
    split at hy
    · rename_i hstore
      obtain ⟨h, htoken, hmem⟩ := hmatched hstore.1
      cases c <;> cases htoken
      exact ⟨h, _, hc, (beq_iff_eq.mp hstore.2).symm, hmem⟩
    · cases hy
  · obtain ⟨c, x, y, -, hy, hread, -⟩ := hknew he
    simp only [Knows.next] at hy
    split at hy
    · rename_i hreport
      exact hread.symm.trans hreport
    · cases hy

/-- A device that has issued challenge 7, with an empty table for group 0. -/
def issuedDevice : Mem :=
  { Mem.started with
    vdev := { Device.zero with challenge := 7 }
    db := ⟨fun gid => if gid = 0 then some [] else none⟩ }

/-- A token for challenge 7 of user `u`. -/
def tokenOfUser (u : UInt64) : HwAuthToken := ⟨hwAuthTokenVersion, 7, u, 0, htobe32 1, 0⟩

/-- User 1 enrolls finger 1 with one image. -/
def enrollUser : List (Label hal) :=
  .arrive 1 (.fingerprintEnroll (some (tokenOfUser 1)) 0) :: ticks 1 26 ++ touch 1 2 ++
    ticks 1 1 ++ ticks 2 3 ++ answer 2 (.good 0) ++ answer 2 (.good 0) ++ ticks 2 7 ++
    answer 2 (.good 0) ++ ticks 2 2 ++ answer 2 .lost ++ ticks 2 18 ++
    .arrive 3 .sensorProcessSignal :: ticks 3 13 ++ touch 3 2 ++ ticks 3 1 ++ ticks 2 40 ++
    answer 2 (.good 2) ++ ticks 2 2 ++ answer 2 (.good 0) ++ ticks 2 1 ++ answer 2 (.good 1) ++
    ticks 2 7 ++ answer 2 (.good 0) ++ ticks 2 1 ++ answer 2 (.good 0) ++ answer 2 (.good 0) ++
    ticks 2 7 ++ .run 2 [.num 101] :: ticks 2 2 ++ answer 2 (.good 0) ++ ticks 2 2 ++
    answer 2 (.good 0) ++ ticks 2 14 ++ answer 2 (.good 0) ++ ticks 2 7

/-- TrustZone refuses the enrollment of user 2. -/
def refuseUser : List (Label hal) :=
  .arrive 4 (.fingerprintEnroll (some (tokenOfUser 2)) 0) :: ticks 4 32 ++ answer 4 (.good 0) ++
    ticks 4 1 ++ answer 4 (.good 0) ++ ticks 4 2 ++ answer 4 (.good 0) ++ ticks 4 4 ++ touch 4 5 ++
    ticks 4 1 ++ ticks 5 4 ++ answer 5 .lost ++ ticks 5 8

/-- Finger 1 is authenticated. -/
def authenticateFinger : List (Label hal) :=
  .arrive 6 (.fingerprintAuthenticate 9) :: ticks 6 32 ++ touch 6 7 ++ ticks 6 1 ++ ticks 7 2 ++
    answer 7 (.good 0) ++ ticks 7 7 ++ answer 7 (.good 0) ++ ticks 7 2 ++ answer 7 .lost ++
    ticks 7 18 ++ .arrive 8 .sensorProcessSignal :: ticks 8 13 ++ touch 8 7 ++ ticks 8 1 ++
    ticks 7 40 ++ answer 7 (.good 2) ++ ticks 7 2 ++ answer 7 (.good 0) ++ ticks 7 14 ++
    answer 7 (.good 0) ++ ticks 7 3 ++ answer 7 (.good 0) ++ ticks 7 10 ++ answer 7 (.good 0) ++
    ticks 7 22

set_option maxRecDepth 4000 in
/-- User 1 enrolls finger 1, user 2 tries to enroll one, and then finger 1 is reported. -/
theorem reportAfterRefusal : ∃ s hat earlier,
    (Hal.idle issuedDevice).Reaches fine (fun _ => true) (fun _ _ _ => True) s ∧
      s.log = (7, .op (.notify (.authenticated 1 0 hat)) ()) :: earlier ∧
      authorizedBy s earlier 1 = some (tokenOfUser 1) ∧ hat.userId = 2 := by
  obtain ⟨s, hs, hat, earlier, hlog, hauthorized, huser⟩ : ∃ s,
      (Hal.idle issuedDevice).exec fine (fun _ => true) (fun _ _ _ => true)
        (enrollUser ++ refuseUser ++ authenticateFinger) = some s ∧
      ∃ hat earlier, s.log = (7, .op (.notify (.authenticated 1 0 hat)) ()) :: earlier ∧
        authorizedBy s earlier 1 = some (tokenOfUser 1) ∧ hat.userId = 2 :=
    ⟨_, rfl, _, _, rfl, rfl, rfl⟩
  exact ⟨s, hat, earlier, State.Reaches.refl.exec (fun _ _ _ _ => trivial) hs, hlog, hauthorized,
    huser⟩

/-- The report names the user who was looked up last. -/
theorem tokensNameLastUser_refused : ∃ s hat earlier,
    s.log = (7, .op (.notify (.authenticated 1 0 hat)) ()) :: earlier ∧
      TokensNameLastUser issuedDevice s ∧ identityRead issuedDevice 7 earlier = some 2 := by
  obtain ⟨s, hat, earlier, hr, hlog, -, huser⟩ := reportAfterRefusal
  have h := tokensNameLastUser hr
  exact ⟨s, hat, earlier, hlog, h, huser ▸ h.reported [] earlier 7 1 0 hat () hlog⟩

/-- **Another user's finger.** A finger that user 1 enrolled is reported for user 2. -/
theorem other_user : ∃ s, (Hal.idle issuedDevice).Reaches fine (fun _ => true)
    (fun _ _ _ => True) s ∧ ¬ TokensNameOwner s := by
  obtain ⟨s, hat, earlier, hr, hlog, hauthorized, huser⟩ := reportAfterRefusal
  refine ⟨s, hr, fun h => ?_⟩
  have hwrong := h [] earlier 7 1 0 hat () hlog _ hauthorized
  rw [huser] at hwrong
  exact absurd hwrong (by decide)

end KlteCommon.Analysis
