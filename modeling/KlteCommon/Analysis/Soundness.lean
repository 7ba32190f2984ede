import KlteCommon.Analysis.Outcome
import KlteCommon.Computation.Paths

/-!
# Only a matched finger is authenticated

`vcs_authenticate` asks for a match as often as it takes and reports a finger at its end. `Verdict`
is what its events so far allow it to report.

The ladder: the slot that a match reply with index `k` names is the `k + 1`-th occupied one, or none
(`namedSlot_ne_zero`); the bodies keep to the verdict (`verdictProtocol_valid`), which says what has been
sent and why (`Says.next`); so in every run that leaves the slots alone the finger reported is
the one the last match reply names, it is reported once, after `STATE_IDLE` was stored, and never
once a capture has returned -1 (`soundReports`).
-/

set_option autoImplicit false

namespace KlteCommon.Analysis

open KlteCommon.Computation KlteCommon.Fingerprint

/-! ## What is observed -/

/-- The occupied slots in increasing order. -/
def occupiedSlots (m : Mem) : List ℤ :=
  ((List.range maxNumFingers).map fun i : ℕ => (i : ℤ) + 1).filter fun idx => (m.tz.finger idx).exist

/-- The message that a finger was authenticated. -/
def reportsFinger : HalEvent → Bool
  | .op (.notify (.authenticated _ _ _)) _ => true
  | _ => false

/-- The last match reply of a thread with these events, newest first. -/
def lastMatch : List HalEvent → Option Reply
  | [] => none
  | .op (.qseecomSendCmd req) r :: es =>
    if req.cmd = .vfmMatchImageToTemplates then some r else lastMatch es
  | _ :: es => lastMatch es

/-- What the thread stored last in `tz.state`. -/
def lastStored : List HalEvent → Option WorkerState
  | [] => none
  | .op (.store .tzState state) _ :: _ => some state
  | _ :: es => lastStored es

/-- Among the events is a call of `vcs_start_capture` that ran to its end and returned `r`. -/
def CaptureReturned (r : CInt) (es : List HalEvent) : Prop :=
  ∃ t later capture earlier, es = later ++ capture.reverse ++ earlier ∧
    Path hal fine (.call (.vcsStartCapture t) .ret) capture (.ret r)

/-- What is to hold of a thread's reports when the slots are those of `m`. -/
structure SoundReports (m : Mem) (es : List HalEvent) : Prop where
  once : es.countP reportsFinger ≤ 1
  idle : ∀ later fid gid hat r earlier,
    es = later ++ .op (.notify (.authenticated fid gid hat)) r :: earlier →
      lastStored earlier = some .stateIdle
  matched : ∀ fid gid hat r, .op (.notify (.authenticated fid gid hat)) r ∈ es →
    ∃ reply, lastMatch es = some reply ∧ reply.ret = 0 ∧ reply.result = 0 ∧
      0 ≤ (reply.data 22).toInt ∧ (occupiedSlots m)[(reply.data 22).toInt.toNat]? = some fid
  occupied : ∀ (fid : ℤ) gid hat r, .op (.notify (.authenticated fid gid hat)) r ∈ es →
    1 ≤ fid ∧ fid ≤ maxNumFingers ∧ (m.tz.finger fid).exist = true
  captured : CaptureReturned (-1) es → ∀ e ∈ es, reportsFinger e = false

/-- The condition on a step: it leaves the slots as they are. -/
def keepsSlots (s : Hal) (e : HalEvent) : Prop :=
  ∀ o r, e = .op o r → fingerAfter s.mem.tz.finger o = s.mem.tz.finger

/-! ## The slot of an index -/

/-- The slot that is found for index `k` among `n` slots from `idx` on, behind `len` occupied ones. -/
theorem matchedSlot_getElem {exist : ℤ → Bool} {k : CInt} (n : ℕ) (idx : ℤ) (len : ℕ)
    (hlen : len + n ≤ maxNumFingers)
    (h : matchedSlot exist (k + 1) n idx (Int32.ofNat len) ≠ 0) :
    (len : ℤ) ≤ k.toInt ∧
      (((List.range n).map fun i : ℕ => (i : ℤ) + idx).filter exist)[k.toInt.toNat - len]? =
        some (matchedSlot exist (k + 1) n idx (Int32.ofNat len)) := by
  induction n generalizing idx len with
  | zero => exact absurd rfl h
  | succ n ih =>
    have hnext : Int32.ofNat len + 1 = Int32.ofNat (len + 1) := by
      rw [Int32.ofNat_add]
      rfl
    have hslots : (List.range (n + 1)).map (fun i : ℕ => (i : ℤ) + idx) =
        idx :: (List.range n).map fun i : ℕ => (i : ℤ) + (idx + 1) := by
      rw [List.range_succ_eq_map, List.map_cons, List.map_map]
      refine congrArg₂ List.cons (by simp) (List.map_congr_left fun i _ => ?_)
      simp only [Function.comp_apply]
      omega
    rw [hslots]
    unfold matchedSlot at h ⊢
    by_cases hocc : exist idx = true
    · simp only [hocc, if_true, List.filter_cons] at h ⊢
      by_cases hk : Int32.ofNat len + 1 = k + 1
      · obtain rfl : Int32.ofNat len = k := by simpa using hk
        have htoInt : (Int32.ofNat len).toInt = len :=
          Int32.toInt_ofNat_of_lt (Nat.lt_of_lt_of_le (by omega) (by decide : maxNumFingers ≤ 2 ^ 31))
        simp [htoInt]
      · rw [if_neg hk] at h ⊢
        rw [hnext] at h ⊢
        obtain ⟨hle, hslot⟩ := ih (idx + 1) (len + 1) (by omega) h
        have hsub : k.toInt.toNat - len = k.toInt.toNat - (len + 1) + 1 := by omega
        exact ⟨by omega, by rw [hsub, List.getElem?_cons_succ, hslot]⟩
    · simp only [hocc, List.filter_cons] at h ⊢
      exact ih (idx + 1) len (by omega) h

/-- **A match reply names the occupied slot at its index.** -/
theorem namedSlot_ne_zero {m : Mem} {reply : Reply} (h : namedSlot m reply ≠ 0) :
    0 ≤ (reply.data 22).toInt ∧
      (occupiedSlots m)[(reply.data 22).toInt.toNat]? = some (namedSlot m reply) :=
  matchedSlot_getElem maxNumFingers 1 0 (Nat.le_of_eq (Nat.zero_add _)) h

/-- An occupied slot is one of the five. -/
theorem mem_occupiedSlots {m : Mem} {fid : ℤ} (h : fid ∈ occupiedSlots m) :
    1 ≤ fid ∧ fid ≤ maxNumFingers ∧ (m.tz.finger fid).exist = true := by
  obtain ⟨hmem, hexist⟩ := List.mem_filter.mp h
  obtain ⟨i, hi, rfl⟩ := List.mem_map.mp hmem
  have hlt := List.mem_range.mp hi
  exact ⟨by omega, by omega, hexist⟩

/-! ## The protocol -/

/-- What a worker may report: nothing yet, finger `fid` (once it has stored `STATE_IDLE`), nothing
more after finger `fid`, or nothing at all. -/
inductive Verdict
  | scanning
  | named (fid : ℤ) (idle : Bool)
  | reported (fid : ℤ)
  | closed
  deriving DecidableEq

namespace Verdict

/-- `STATE_IDLE` has been stored. -/
def idled : Verdict → Verdict
  | named fid _ => named fid true
  | x => x

/-- One event of the worker. -/
def next (m : Mem) (x : Verdict) : HalEvent → Option Verdict
  | .op (.qseecomSendCmd req) r =>
    if req.cmd = .vfmMatchImageToTemplates then
      match x with
      | scanning =>
        some (if r.failed ∨ namedSlot m r = 0 then scanning else named (namedSlot m r) false)
      | _ => none
    else some x
  | .op (.store .tzState state) _ => if state = .stateIdle then some x.idled else none
  | .op (.notify (.authenticated fid _ _)) _ =>
    if x = named fid true then some (reported fid) else none
  | .done _ _ => none
  | _ => some x

end Verdict

/-- What is relied on: the slots are those of `m`. -/
def verdictReads (m : Mem) : HalEvent → Prop
  | .op (.load (.fingerExist idx)) r => r = (m.tz.finger idx).exist
  | _ => True

/-- Which procedures the worker calls in which stage. -/
def verdictCalls (x : Verdict) : Call → Prop
  | .vcsAuthenticate | .vcsAuthenticateLoop | .vcsStartCapture _ => x = .scanning
  | .vcsStartCaptureWait | .vcsStartCaptureRead | .vcsCheckState => x = .scanning
  | .vcsUpdateCalData | .sensorCaptureStart | .vcsGetEnrolledFingerNum => x = .scanning
  | .setTzState state => state = .stateIdle
  | .getTzState | .sendErrorNotice _ | .sendAcquiredNotice _ => True
  | .sensorUninit | .vcsUninit | .vcsUpdateAuthToken => True
  | .sendAuthenticatedNotice fid => x = .named fid true
  | _ => False

/-- The stages a procedure may be left in; a worker that is told by `vcs_start_capture` that it
failed is to do without a report. -/
def verdictLeaves (x : Verdict) : (c : Call) → Ret c → Verdict → Prop
  | .vcsAuthenticate, _, _ => True
  | .vcsAuthenticateLoop, fid, y =>
    (fid ≠ 0 ∧ y = .named fid false) ∨ (fid = 0 ∧ (y = .scanning ∨ y = .closed))
  | .vcsStartCapture _, r, y => y = x ∨ (r = -1 ∧ y = .closed)
  | .setTzState _, _, y | .vcsUninit, _, y => y = x.idled
  | .sendAuthenticatedNotice fid, _, y => y = .reported fid
  | _, _, y => y = x

/-- The protocol of a worker with the slots of `m`. -/
@[simps] def verdictProtocol (m : Mem) : Protocol Resp Ret Verdict where
  assume _ e := verdictReads m e
  next x e := x.next m e
  pre c x := verdictCalls x c
  post c x r y := verdictLeaves x c r y

section

variable (m : Mem) (x y : Verdict) (c : Call) (r : Ret c) (e : HalEvent)

/-- A call by its contract. -/
@[simp ↓] theorem callRule_verdict (Q : Ret c → Verdict → Prop) :
    (verdictProtocol m).callRule fine c Q x ↔
      verdictCalls x c ∧ ∀ r y, verdictLeaves x c r y → Q r y :=
  Protocol.callRule_entered rfl trivial rfl

end

/-! ## The bodies keep to it -/

section bodies

attribute [local simp ↓] load store op call send ionSbuffer sameIonSbuffer

attribute [local simp] verdictReads verdictCalls verdictLeaves Verdict.next Verdict.idled

variable {m : Mem}

/-- Code that only reads the slots keeps the stage. -/
theorem verdict_readsSlot {α : Type} {p : Code α} {Q : α → Verdict → Prop} {x : Verdict}
    (hp : p.Within Op.readsSlot fun _ => False) (hQ : ∀ a, Q a x) :
    (verdictProtocol m).Follows fine p Q x := by
  refine .frame hp (fun o ho r => ?_) hQ
  cases o <;> first | rfl | cases ho

/-- The scan behind a match reply finds the slot that the reply names. -/
theorem verdict_findMatched {Q : ℤ → Verdict → Prop} {x : Verdict} (r : Reply)
    (hQ : Q (namedSlot m r) x) : (verdictProtocol m).Follows fine
      (findMatched (r.data 22 + 1) 0 maxNumFingers 1 0) Q x :=
  follows_matchedSlot _ _ _ (fun _ _ _ _ h => ⟨h, rfl⟩) hQ

/-- Every body keeps to the contracts. -/
theorem verdictProtocol_valid : (verdictProtocol m).Valid fine body := by
  intro c _ x hx
  cases c
  all_goals simp at hx
  case getTzState => simp [body, getTzState]
  case setTzState => simp [body, setTzState, hx]
  case vcsUpdateCalData => simp [body, vcsUpdateCalData, hx]
  case vcsCheckState => simp [body, vcsCheckState, hx]
  case vcsStartCapture => simp [body, vcsStartCapture, hx]
  case vcsStartCaptureWait => simp [body, vcsStartCaptureWait, hx]
  case vcsStartCaptureRead => simp [body, vcsStartCaptureRead, hx]
  case vcsAuthenticate =>
    simp [body, vcsAuthenticate, hx]
    rintro _ fid y (⟨hfid, rfl⟩ | ⟨rfl, rfl | rfl⟩) <;> simp_all
  case vcsAuthenticateLoop =>
    simp [body, vcsAuthenticateLoop, hx]
    intro r hr now num
    refine verdict_readsSlot (matchTemplates_within ..) fun _ => ?_
    simp
    intro resp
    by_cases hret : resp.ret = 0
    · by_cases hresult : resp.result = 0
      · simp [hret, hresult, Reply.failed]
        by_cases hslot : namedSlot m resp = 0
        · simp [hslot]
          exact verdict_findMatched resp (by simp [hslot])
        · simp [hslot]
          exact verdict_findMatched resp (by simp [hslot])
      · simp [hret, hresult, Reply.failed]
    · simp [hret, Reply.failed]
  case vcsGetEnrolledFingerNum =>
    exact verdict_readsSlot (countFingers_within ..) fun num => by simp
  case vcsUpdateAuthToken => simp [body, vcsUpdateAuthToken, getAuthToken]
  case vcsUninit => simp [body, vcsUninit]
  case sensorUninit => simp [body, sensorUninit]
  case sensorCaptureStart => simp [body, sensorCaptureStart]
  case sendErrorNotice => simp [body, sendErrorNotice]
  case sendAcquiredNotice => simp [body, sendAcquiredNotice]
  case sendAuthenticatedNotice => simp [body, sendAuthenticatedNotice, hx]

end bodies

/-! ## What the verdict says -/

namespace Verdict

/-- The finger that was matched. -/
def finger : Verdict → Option ℤ
  | named fid _ | reported fid => some fid
  | _ => none

/-- How many reports have been sent. -/
def sent : Verdict → ℕ
  | reported _ => 1
  | _ => 0

end Verdict

/-- What a verdict says of the events that led to it. -/
structure Says (m : Mem) (es : List HalEvent) (x : Verdict) : Prop where
  sent : es.countP reportsFinger = x.sent
  report : ∀ fid gid hat r, .op (.notify (.authenticated fid gid hat)) r ∈ es → x = .reported fid
  named : ∀ fid, x.finger = some fid →
    fid ≠ 0 ∧ ∃ r, lastMatch es = some r ∧ r.failed = false ∧ namedSlot m r = fid
  idle : ∀ fid, x = .named fid true → lastStored es = some .stateIdle

namespace Says

variable {m : Mem} {es : List HalEvent} {x y : Verdict} {e : HalEvent}

/-- An event that is neither a report, a match nor a store of the state. -/
theorem keep (h : Says m es x) (he : reportsFinger e = false) (hmatch : lastMatch (e :: es) = lastMatch es)
    (hstored : lastStored (e :: es) = lastStored es) : Says m (e :: es) x := by
  refine ⟨by simp [he, h.sent], fun fid gid hat r hr => ?_, hmatch ▸ h.named, hstored ▸ h.idle⟩
  obtain rfl | hr := List.mem_cons.mp hr
  · cases he
  · exact h.report fid gid hat r hr

/-- An event that is not a report, after which the verdict is open or closed as before. -/
theorem move (h : Says m es x) (he : reportsFinger e = false) (hsent : y.sent = x.sent)
    (hreported : ∀ fid, x = .reported fid → y = .reported fid)
    (hnamed : ∀ fid, y.finger = some fid →
      fid ≠ 0 ∧ ∃ r, lastMatch (e :: es) = some r ∧ r.failed = false ∧ namedSlot m r = fid)
    (hidle : ∀ fid, y = .named fid true → lastStored (e :: es) = some .stateIdle) :
    Says m (e :: es) y := by
  refine ⟨by simp [he, h.sent, hsent], fun fid gid hat r hr => ?_, hnamed, hidle⟩
  obtain rfl | hr := List.mem_cons.mp hr
  · cases he
  · exact hreported fid (h.report fid gid hat r hr)

/-- A command. -/
theorem command {req : Request} {r : Reply} (h : Says m es x)
    (hy : x.next m (.op (.qseecomSendCmd req) r) = some y) :
    Says m (.op (.qseecomSendCmd req) r :: es) y := by
  by_cases hreq : req.cmd = .vfmMatchImageToTemplates
  · simp only [Verdict.next, hreq, if_true] at hy
    split at hy <;> cases hy
    split
    · exact h.move rfl rfl nofun nofun nofun
    · rename_i hgood
      obtain ⟨hfailed, hslot⟩ := not_or.mp hgood
      refine h.move rfl rfl nofun (fun fid hfid => ?_) (fun _ hidle => ?_)
      · obtain rfl := Option.some.inj hfid
        exact ⟨hslot, r, by simp [lastMatch, hreq], by simpa using hfailed, rfl⟩
      · cases hidle
  · simp only [Verdict.next, hreq, if_false] at hy
    cases hy
    exact h.keep rfl (by simp [lastMatch, hreq]) rfl

/-- A store of the state. -/
theorem store {state : WorkerState} {r : Unit} (h : Says m es x)
    (hy : x.next m (.op (.store .tzState state) r) = some y) :
    Says m (.op (.store .tzState state) r :: es) y := by
  simp only [Verdict.next] at hy
  split at hy <;> cases hy
  rename_i hstate
  subst hstate
  cases x with
  | named fid idle => exact h.move rfl rfl nofun h.named fun _ _ => rfl
  | _ => exact h.move rfl rfl (fun _ => id) h.named fun _ _ => rfl

/-- A report. -/
theorem report_next {fid : ℤ} {gid : UInt32} {hat : HwAuthToken} {r : Unit} (h : Says m es x)
    (hy : x.next m (.op (.notify (.authenticated fid gid hat)) r) = some y) :
    Says m (.op (.notify (.authenticated fid gid hat)) r :: es) y := by
  simp only [Verdict.next] at hy
  split at hy <;> cases hy
  rename_i hx
  subst hx
  refine ⟨?_, fun fid' gid' hat' r' hr => ?_, ?_, nofun⟩
  · rw [List.countP_cons_of_pos rfl, h.sent]
    rfl
  · obtain heq | hr := List.mem_cons.mp hr
    · cases heq
      rfl
    · cases h.report _ _ _ _ hr
  · rintro _ ⟨⟩
    exact h.named fid rfl

/-- **One event.** -/
theorem next (h : Says m es x) (hy : x.next m e = some y) : Says m (e :: es) y := by
  cases e with
  | op o r =>
    cases o with
    | qseecomSendCmd req => exact h.command hy
    | notify msg =>
      cases msg with
      | authenticated fid gid hat => exact h.report_next hy
      | _ =>
        cases hy
        exact h.keep rfl rfl rfl
    | store v a =>
      cases v with
      | tzState => exact h.store hy
      | _ =>
        cases hy
        exact h.keep rfl rfl rfl
    | _ =>
      cases hy
      exact h.keep rfl rfl rfl
  | enter c =>
    cases hy
    exact h.keep rfl rfl rfl
  | done c r => cases hy

/-- All events. -/
theorem of_stage (h : (verdictProtocol m).stage .scanning es = some x) : Says m es x := by
  induction es generalizing x with
  | nil =>
    cases h
    exact ⟨rfl, nofun, nofun, nofun⟩
  | cons e es ih =>
    obtain ⟨y, hy, hx⟩ := Option.bind_eq_some_iff.mp h
    exact (ih hy).next hx

end Says

/-- Nothing has been reported as long as the verdict is open, and nothing is once it is closed. -/
theorem quiet_of_stage {m : Mem} {es : List HalEvent} {x y : Verdict} (hx : x = .scanning ∨ x = .closed)
    (h : (verdictProtocol m).stage x es = some y) (hy : x = .scanning → y.sent = 0) :
    ∀ e ∈ es, reportsFinger e = false := by
  obtain rfl | rfl := hx
  · have hnone := (Says.of_stage h).sent.trans (hy rfl)
    exact fun e he => by simpa using List.countP_eq_zero.mp hnone e he
  clear hy
  suffices hall : y = .closed ∧ ∀ e ∈ es, reportsFinger e = false from hall.2
  induction es generalizing y with
  | nil =>
    cases h
    exact ⟨rfl, nofun⟩
  | cons e es ih =>
    obtain ⟨x, hx, hy⟩ := Option.bind_eq_some_iff.mp h
    obtain ⟨rfl, hes⟩ := ih hx
    have hstep : y = .closed ∧ reportsFinger e = false := by
      simp only [verdictProtocol_next] at hy
      unfold Verdict.next at hy
      split at hy
      · split at hy <;> cases hy
        exact ⟨rfl, rfl⟩
      · split at hy <;> cases hy
        exact ⟨rfl, rfl⟩
      · simp at hy
      · cases hy
      · rename_i hother _
        cases hy
        refine ⟨rfl, ?_⟩
        unfold reportsFinger
        split
        · exact absurd rfl (hother _ _ _ _)
        · rfl
    exact ⟨hstep.1, List.forall_mem_cons.mpr ⟨hstep.2, hes⟩⟩

/-! ## Every run -/

section path

variable {m : Mem} {es : List HalEvent}

/-- A part of a worker's path leads along the automaton. -/
theorem verdict_path (hreads : ∀ e ∈ es, verdictReads m e) {α : Type} {p q : Code α}
    {Q : α → Verdict → Prop} {x : Verdict} (hpath : Path hal fine p es.reverse q)
    (hp : (verdictProtocol m).Follows fine p Q x) :
    ∃ y, (verdictProtocol m).stage x es = some y ∧ (verdictProtocol m).Follows fine q Q y := by
  obtain ⟨y, hy, hq⟩ := hp.path verdictProtocol_valid
    (fun _ e he => hreads e (List.mem_reverse.mp he)) hpath
  exact ⟨y, by rwa [List.reverse_reverse] at hy, hq⟩

/-- The worker starts without a verdict. -/
theorem verdict_start : (verdictProtocol m).Follows fine (.call .vcsAuthenticate .ret)
    (fun _ _ => True) .scanning := by
  simp [verdictCalls, verdictLeaves]

/-- A worker that was told that its capture failed reports nothing, before or after. -/
theorem quiet_of_captured {p : Code Unit} (hreads : ∀ e ∈ es, verdictReads m e)
    (hpath : Path hal fine (.call .vcsAuthenticate .ret) es.reverse p)
    (h : CaptureReturned (-1) es) : ∀ e ∈ es, reportsFinger e = false := by
  obtain ⟨t, later, capture, earlier, rfl, hcapture⟩ := h
  simp only [List.reverse_append, List.reverse_reverse] at hpath
  obtain ⟨p₁, hbefore, hpath⟩ := Path.append_iff.mp hpath
  obtain ⟨p₂, hduring, hafter⟩ := Path.append_iff.mp hpath
  obtain ⟨k, rfl, rfl⟩ := Path.of_call hcapture hduring
  simp only [List.mem_append] at hreads
  obtain ⟨x, hx, hcall⟩ := verdict_path (fun e he => hreads e (.inr he)) hbefore verdict_start
  rw [Protocol.follows_call, callRule_verdict] at hcall
  obtain ⟨rfl, hrest⟩ := hcall
  have hcontract : (verdictProtocol m).Follows fine (.call (.vcsStartCapture t) .ret)
      (verdictLeaves .scanning (.vcsStartCapture t)) .scanning := by simp [verdictCalls]
  rw [← List.reverse_reverse capture] at hcapture
  obtain ⟨z, hz, hleaves⟩ := verdict_path (fun e he => hreads e (.inl (.inr he))) hcapture hcontract
  have hclosed := hrest (-1) .closed (.inr ⟨rfl, rfl⟩)
  obtain ⟨y, hy, -⟩ := verdict_path (fun e he => hreads e (.inl (.inl he))) hafter hclosed
  simp only [List.forall_mem_append]
  refine ⟨⟨quiet_of_stage (.inr rfl) hy nofun, quiet_of_stage (.inl rfl) hz fun _ => ?_⟩,
    quiet_of_stage (.inl rfl) hx fun _ => rfl⟩
  obtain rfl | ⟨-, rfl⟩ := hleaves <;> rfl

/-- What a worker's path says of its reports. -/
theorem soundReports_of_path {p : Code Unit} (hreads : ∀ e ∈ es, verdictReads m e)
    (hpath : Path hal fine (.call .vcsAuthenticate .ret) es.reverse p) : SoundReports m es := by
  obtain ⟨y, hy, -⟩ := verdict_path hreads hpath verdict_start
  have hsaid := Says.of_stage hy
  have hnamed : ∀ fid gid hat r, .op (.notify (.authenticated fid gid hat)) r ∈ es →
      ∃ reply, lastMatch es = some reply ∧ reply.ret = 0 ∧ reply.result = 0 ∧
        0 ≤ (reply.data 22).toInt ∧
        (occupiedSlots m)[(reply.data 22).toInt.toNat]? = some fid := by
    intro fid gid hat r hr
    obtain ⟨hfid, reply, hlast, hgood, rfl⟩ :=
      hsaid.named fid (by rw [hsaid.report fid gid hat r hr]; rfl)
    obtain ⟨hret, hresult⟩ : reply.ret = 0 ∧ reply.result = 0 := by simpa [Reply.failed] using hgood
    exact ⟨reply, hlast, hret, hresult, namedSlot_ne_zero hfid⟩
  refine ⟨?_, ?_, hnamed, fun fid gid hat r hr => ?_, quiet_of_captured hreads hpath⟩
  · rw [hsaid.sent]
    cases y <;> simp [Verdict.sent]
  · rintro later fid gid hat r earlier rfl
    obtain ⟨x, x', hx, hnext⟩ := Protocol.stage_split hy
    simp only [verdictProtocol_next, Verdict.next] at hnext
    split at hnext
    · rename_i hnamed
      exact (Says.of_stage hx).idle fid hnamed
    · cases hnext
  · obtain ⟨reply, -, -, -, -, hslot⟩ := hnamed fid gid hat r hr
    exact mem_occupiedSlots (List.mem_of_getElem? hslot)

end path

/-- **A finger is authenticated only when it was matched.** In every run, whatever threads it has
and whatever TrustZone replies, in which the slots stay what they are, the reports of a worker that
runs `vcs_authenticate` are sound. -/
theorem soundReports {m : Mem} {arrives : Call → Bool} {s : Hal} {w : Tid}
    (hw : s.entry w = some .vcsAuthenticate)
    (h : (Hal.idle m).Reaches fine arrives (fun s _ e => keepsSlots s e) s) :
    SoundReports m (s.own w) := by
  have hstep : ∀ (s : Hal) t e (s' : Hal), s.mem.tz.finger = m.tz.finger → keepsSlots s e →
      s.Runs fine t e s' → verdictReads m e ∧ s'.mem.tz.finger = m.tz.finger := by
    intro s t e s' hI hok hr
    cases e with
    | op o r =>
      refine ⟨?_, (effect_of_runs hr).finger.trans ((hok o r rfl).trans hI)⟩
      unfold verdictReads
      split
      · rename_i heq
        cases heq
        rw [load_of_runs hr, Mem.get, hI]
      · trivial
    | enter c => exact ⟨trivial, by rw [mem_of_enters hr, hI]⟩
    | done c r => exact (not_done_of_fine hr).elim
  obtain ⟨h, -⟩ := h.strengthen (I := fun s : Hal => s.mem.tz.finger = m.tz.finger) rfl
    (fun _ _ _ hI _ _ => hI) hstep
  obtain ⟨⟨d, p⟩, hp, rfl⟩ := Option.map_eq_some_iff.mp hw
  obtain ⟨hpath, hreads⟩ := h.path (A := verdictReads m) (fun _ _ _ _ => id) (fun _ => rfl) rfl hp
  exact soundReports_of_path hreads hpath

set_option maxRecDepth 2000 in
/-- A worker that reports the finger it has matched. -/
theorem soundReports_recognised :
    ∃ s, (Hal.idle knownFinger).Reaches fine (fun _ => true) (fun s _ e => keepsSlots s e) s ∧
      (s.own 1).countP reportsFinger = 1 ∧ SoundReports knownFinger (s.own 1) := by
  obtain ⟨s, hs, hentry, hsent⟩ : ∃ s,
      (Hal.idle knownFinger).exec fine (fun _ => true) (fun _ _ e => quietEvent e)
        (.arrive 1 .vcsAuthenticate :: ticks 1 2 ++ answer 1 (.good 0) ++ ticks 1 7 ++
          answer 1 (.good 0) ++ ticks 1 2 ++ answer 1 .lost ++ ticks 1 4 ++
          .arrive 2 .sensorProcessSignal :: ticks 2 15 ++ ticks 1 40 ++ answer 1 (.good 2) ++
          ticks 1 2 ++ answer 1 (.good 0) ++ ticks 1 14 ++ answer 1 (.good 0) ++ ticks 1 3 ++
          answer 1 (.good 0) ++ ticks 1 5 ++ answer 1 (.good 0) ++ ticks 1 23) = some s ∧
      s.entry 1 = some .vcsAuthenticate ∧ (s.own 1).countP reportsFinger = 1 := ⟨_, rfl, rfl, rfl⟩
  have hkeeps : ∀ (s : Hal) (t : Tid) (e : HalEvent), quietEvent e = true → keepsSlots s e := by
    rintro s t _ hq o r rfl
    exact fingerAfter_of_quiet hq _
  have hr := State.Reaches.refl.exec hkeeps hs
  exact ⟨s, hr, hsent, soundReports hentry hr⟩

end KlteCommon.Analysis
