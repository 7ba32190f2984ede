import KlteCommon.Fingerprint.Bystanders
import KlteCommon.Fingerprint.Loops

/-!
# One outcome for every session

A worker that nobody cancels is to end with one terminal message: that the finger was
authenticated, that no samples remain, or an error. `Outcome` is how far it has got with that.

The ladder: the stages forbid a second terminal message and any end without a decision
(`outcomeProtocol_valid`), each stage counts the messages and knows whether the worker fell silent
(`Tells.worker`), so a finished worker has sent exactly one just when none of its replies silenced
it (`oneOutcome_iff`). Three kinds of replies do: `-1` for `vfmCaptureStart`, a transport error
for `vfmCaptureProcessData`, and a match with an index that names no occupied slot
(`silent_end`).
-/

set_option autoImplicit false

namespace KlteCommon.Analysis

open KlteCommon.Computation KlteCommon.Fingerprint

/-! ## What is observed -/

/-- A message that ends a session for the framework. -/
def terminalMsg : FingerprintMsg → Bool
  | .authenticated _ _ _ | .error _ => true
  | .enrolling _ samplesRemaining => samplesRemaining == 0
  | _ => false

/-- A step that sends one. -/
def terminal : HalEvent → Bool
  | .op (.notify msg) _ => terminalMsg msg
  | _ => false

/-- Thread `w` has sent exactly one terminal message. -/
def OneOutcome (w : Tid) (s : Hal) : Prop := (s.own w).countP terminal = 1

/-- The slot a match reply names when the slots are those of `m`, 0 if there is none. -/
def namedSlot (m : Mem) (r : Reply) : ℤ :=
  matchedSlot (fun idx => (m.tz.finger idx).exist) (r.data 22 + 1) maxNumFingers 1 0

/-- A reply that makes a worker end without a message. -/
def silences (m : Mem) : HalEvent → Bool
  | .op (.qseecomSendCmd req) r =>
    match req.cmd with
    | .vfmCaptureStart => r.ret == -1
    | .vfmCaptureProcessData => r.ret != 0
    | .vfmMatchImageToTemplates => !r.failed && namedSlot m r == 0
    | _ => false
  | _ => false

/-! ## The protocol -/

/-- How far a worker has got: it has decided nothing, it has failed and is to say so, it has
matched a finger and is to say so, it has said what it had to, or it will say nothing. -/
inductive Outcome
  | waiting
  | failing
  | matched
  | reported
  | silent
  deriving DecidableEq

namespace Outcome

/-- The reply to a command. -/
def reply (m : Mem) (x : Outcome) (req : Request) (r : Reply) : Option Outcome :=
  match x with
  | .waiting =>
    match req.cmd, req.vendorCmd with
    | .vfmCaptureStart, _ => some (if r.ret = -1 then .silent else .waiting)
    | .vfmCaptureProcessData, _ => some (if r.ret ≠ 0 then .silent else .waiting)
    | .vfmMatchImageToTemplates, _ =>
      some (if r.ret ≠ 0 then .failing else if r.result ≠ 0 then .waiting
        else if namedSlot m r = 0 then .silent else .matched)
    | .vfmEnrollBegin, _ => some (if r.failed then .failing else .waiting)
    | .vfmVendorDefinedOperation, .vendorUnknownA =>
      some (if r.failed then .failing else .waiting)
    | .vfmEnrollAddImage, _ => some (if r.ret ≠ 0 then .failing else .waiting)
    | _, _ => some .waiting
  | x =>
    match req.cmd with
    | .vfmCaptureStart | .vfmCaptureProcessData | .vfmMatchImageToTemplates => none
    | _ => some x

/-- A message. -/
def report (x : Outcome) (msg : FingerprintMsg) : Option Outcome :=
  if terminalMsg msg then
    match x, msg with
    | .waiting, .enrolling _ _ | .failing, .error _ => some .reported
    | .matched, .authenticated _ _ _ => some .reported
    | _, _ => none
  else some x

/-- One event of a worker. -/
def next (m : Mem) (x : Outcome) : HalEvent → Option Outcome
  | .op (.qseecomSendCmd req) r => x.reply m req r
  | .op (.notify msg) _ => x.report msg
  | .op (.store .tzState _) _ => if x = .waiting then none else some x
  | .op (.store (.fingerData _) _) _ | .op (.store (.fingerPayload _) _) _ =>
    if x = .reported then some x else none
  | .op (.store (.fingerExist _) _) _ => if x = .reported then some x else none
  | .op (.store (.finger _) _) _ | .op (.copyData _ _) _ | .op (.copyPayload _ _) _ => none
  | .op .clearTz _ | .op .clearDevice _ | .op (.store .secureUserId _) _ => none
  | .op (.pthreadCreate _) _ => none
  | .done _ _ => none
  | _ => some x

end Outcome

/-- What is relied on: the state and the slots are those the worker was started with until it
changes them itself, and there is a secure user id. -/
def outcomeReads (m : Mem) (x : Outcome) : HalEvent → Prop
  | .op (.load .tzState) r => x = .waiting → r = m.tz.state
  | .op (.load (.fingerExist idx)) r => x ≠ .reported → r = (m.tz.finger idx).exist
  | .op (.load .secureUserId) r => r ≠ 0
  | _ => True

/-- Which procedures a worker calls in which stage. -/
def outcomeCalls (m : Mem) (x : Outcome) : Call → Prop
  | .vcsAuthenticate | .vcsAuthenticateLoop => x = .waiting ∧ m.tz.state = .stateScan
  | .vcsEnroll => x = .waiting ∧ m.tz.state = .stateEnroll
  | .vcsEnrollLoop idx _ => x = .waiting ∧ m.tz.state = .stateEnroll ∧ idx ≠ 0
  | .vcsStartCapture _ | .vcsStartCaptureWait | .vcsStartCaptureRead | .vcsCheckState =>
    x = .waiting ∧ m.tz.state ≠ .stateIdle ∧ m.tz.state ≠ .stateCancel
  | .vcsUpdateCalData | .sensorCaptureStart | .vcsGetEnrolledFingerNum | .getTzState =>
    x = .waiting
  | .setTzState _ | .sensorUninit | .vcsUninit | .vcsUpdateAuthToken => x ≠ .waiting
  | .sendErrorNotice _ => x = .failing
  | .sendAcquiredNotice _ => True
  | .sendEnrollNotice idx _ => x = .waiting ∧ idx ≠ 0
  | .sendAuthenticatedNotice _ => x = .matched
  | .dbWriteToDb remove _ => x = .reported ∧ remove = false
  | _ => False

/-- The stages a procedure may be left in. -/
def outcomeLeaves (m : Mem) (x : Outcome) : (c : Call) → Ret c → Outcome → Prop
  | .vcsAuthenticate, _, y | .vcsEnroll, _, y => y = .reported ∨ y = .silent
  | .vcsAuthenticateLoop, r, y =>
    (r ≠ 0 ∧ y = .matched) ∨ (r = 0 ∧ (y = .reported ∨ y = .silent))
  | .vcsEnrollLoop _ _, r, y =>
    (r = .gotoOut ∧ y = .silent) ∨ (r ≠ .gotoOut ∧ y = .reported)
  | .vcsStartCapture _, r, y => (r = -1 ∧ y = .silent) ∨ (r ≠ -1 ∧ y = .waiting)
  | .vcsStartCaptureRead, r, y | .vcsCheckState, r, y => r = 0 ∧ y = .waiting
  | .getTzState, r, y => r = m.tz.state ∧ y = .waiting
  | .sendErrorNotice _, _, y | .sendAuthenticatedNotice _, _, y => y = .reported
  | .sendEnrollNotice _ remaining, _, y => y = if remaining = 0 then .reported else .waiting
  | _, _, y => y = x

/-- The protocol of a worker that was started in memory `m`. -/
@[simps] def outcomeProtocol (m : Mem) : Protocol Resp Ret Outcome where
  assume x e := outcomeReads m x e
  next x e := x.next m e
  pre c x := outcomeCalls m x c
  post c x r y := outcomeLeaves m x c r y

section

variable (m : Mem) (x y : Outcome) (c : Call) (r : Ret c) (e : HalEvent)

/-- A call by its contract. -/
@[simp ↓] theorem callRule_outcome (Q : Ret c → Outcome → Prop) :
    (outcomeProtocol m).callRule fine c Q x ↔
      outcomeCalls m x c ∧ ∀ r y, outcomeLeaves m x c r y → Q r y := by
  simp [Protocol.callRule, fine, outcomeProtocol, outcomeReads, Outcome.next]

end

/-! ## The bodies keep to it -/

section bodies

attribute [local simp ↓] load store op call send ionSbuffer sameIonSbuffer

attribute [local simp] outcomeReads outcomeCalls outcomeLeaves Outcome.next Outcome.reply
  Outcome.report terminalMsg

variable {m : Mem}

/-- Code that only reads the slots keeps the stage. -/
theorem outcome_readsSlot {α : Type} {p : Code α} {Q : α → Outcome → Prop} {x : Outcome}
    (hp : p.Within Op.readsSlot fun _ => False) (hQ : ∀ a, Q a x) :
    (outcomeProtocol m).Follows fine p Q x := by
  refine .frame hp (fun o ho r => ?_) hQ
  cases o with
  | load v => rfl
  | _ => cases ho

/-- The search for a slot finds a slot from `idx` on. -/
theorem outcome_firstFreeSlot {Q : ℤ → Outcome → Prop} {x : Outcome} (n : ℕ) (idx : ℤ)
    (hQ : ∀ j, idx ≤ j → Q j x) : (outcomeProtocol m).Follows fine (firstFreeSlot n idx) Q x := by
  induction n generalizing idx with
  | zero => exact hQ idx (Int.le_refl idx)
  | succ n ih =>
    have hrest := ih (idx + 1) fun j hj => hQ j (by omega)
    simp [firstFreeSlot, hQ, hrest]

/-- The scan behind a match reply finds the slot that the reply names. -/
theorem outcome_findMatched {Q : ℤ → Outcome → Prop} {x : Outcome} (r : Reply)
    (hx : x ≠ .reported) (hQ : Q (namedSlot m r) x) : (outcomeProtocol m).Follows fine
      (findMatched (r.data 22 + 1) 0 maxNumFingers 1 0) Q x := by
  refine follows_matchedSlot _ _ _ (fun idx r _ _ h => ⟨?_, rfl⟩) hQ
  have hread : x ≠ .reported → r = (m.tz.finger idx).exist := h
  exact hread hx

/-- Every body keeps to the contracts. -/
theorem outcomeProtocol_valid : (outcomeProtocol m).Valid fine body := by
  intro c _ x hx
  cases c
  all_goals simp at hx
  case getTzState => simp [body, getTzState, hx]
  case setTzState => simp [body, setTzState, hx]
  case vcsUpdateCalData => simp [body, vcsUpdateCalData, hx]
  case vcsCheckState => simp [body, vcsCheckState, hx]
  case vcsStartCapture =>
    simp [body, vcsStartCapture, hx]
    intro r
    by_cases hret : r.ret = -1 <;> simp [Reply.failed, hret]
  case vcsStartCaptureWait => simp [body, vcsStartCaptureWait, hx]
  case vcsStartCaptureRead => simp [body, vcsStartCaptureRead, hx]
  case vcsAuthenticate =>
    simp [body, vcsAuthenticate, hx]
    rintro _ r y (⟨hr, rfl⟩ | ⟨rfl, rfl | rfl⟩) <;> simp_all
  case vcsAuthenticateLoop =>
    simp [body, vcsAuthenticateLoop, hx]
    rintro r y (⟨rfl, rfl⟩ | ⟨hr, rfl⟩)
    · simp
    refine ⟨fun h => absurd h hr, fun _ _ => ⟨rfl, fun _ => ?_⟩⟩
    refine outcome_readsSlot (matchTemplates_within ..) fun _ => ?_
    simp
    intro resp
    by_cases hret : resp.ret = 0
    · by_cases hresult : resp.result = 0
      · simp [hret, hresult]
        by_cases hslot : namedSlot m resp = 0
        · simp [hslot]
          exact outcome_findMatched resp (by decide) (by simp [hslot])
        · simp [hslot]
          exact outcome_findMatched resp (by decide) (by simp [hslot])
      · simp [hret, hresult, hx]
    · simp [hret]
  case vcsEnroll =>
    obtain ⟨rfl, hstate⟩ := hx
    refine .bind (follows_ionSbuffer (by simp) (by simp) ?_)
    refine .bind (outcome_firstFreeSlot _ _ fun j hj => ?_)
    have hj : j ≠ 0 := by omega
    simp [vcsEnrollCommit, payloadBind, enrollmentPasswordSet, hstate, hj]
    intro r
    by_cases hr : r.failed = true
    · simp [hr]
    simp [hr]
    intro r
    by_cases hr : r.failed = true
    · simp [hr]
    simp [hr]
    rintro r y (⟨rfl, rfl⟩ | ⟨hr, rfl⟩) <;> simp_all
  case vcsEnrollLoop =>
    simp [body, vcsEnrollLoop, hx]
    rintro r y (⟨rfl, rfl⟩ | ⟨hr, rfl⟩)
    · simp
    refine ⟨fun h => absurd h hr, fun _ resp => ?_⟩
    by_cases hret : resp.ret = 0
    · simp [hret]
    · simp [hret]
  case vcsGetEnrolledFingerNum =>
    exact outcome_readsSlot (countFingers_within ..) fun num => by simp
  case vcsUpdateAuthToken => simp [body, vcsUpdateAuthToken, getAuthToken]
  case vcsUninit => simp [body, vcsUninit, hx]
  case sensorUninit => simp [body, sensorUninit]
  case sensorCaptureStart => simp [body, sensorCaptureStart, hx]
  case dbWriteToDb => simp [body, dbWriteToDb, hx]
  case sendErrorNotice => simp [body, sendErrorNotice, hx]
  case sendAcquiredNotice => simp [body, sendAcquiredNotice]
  case sendEnrollNotice fid remaining _ =>
    simp [body, sendEnrollNotice, hx]
    intro r hr
    by_cases hzero : remaining = 0 <;> simp [hr, hzero]
  case sendAuthenticatedNotice => simp [body, sendAuthenticatedNotice, hx]

end bodies

/-! ## What the stages say -/

namespace Outcome

variable {m : Mem} {x y : Outcome}

/-- What an event does to a stage: a terminal message is sent once, a reply that silences the
worker finds it undecided. -/
structure Step (m : Mem) (x : Outcome) (e : HalEvent) (y : Outcome) : Prop where
  reported : y = .reported ↔ x = .reported ∨ terminal e = true
  once : x = .reported → terminal e = false
  silent : y = .silent ↔ x = .silent ∨ silences m e = true
  waiting : y = .waiting → x = .waiting

/-- Most events leave the stage. -/
theorem Step.same {e : HalEvent} (ht : terminal e = false) (hs : silences m e = false) :
    Step m x e x :=
  ⟨by simp [ht], fun _ => ht, by simp [hs], id⟩

/-- A command that is answered is a step. -/
theorem step_reply {req : Request} {r : Reply} (h : x.reply m req r = some y) :
    Step m x (.op (.qseecomSendCmd req) r) y := by
  have ht : terminal (.op (.qseecomSendCmd req) r) = false := rfl
  unfold reply at h
  split at h
  · refine ⟨?_, nofun, ?_, fun _ => rfl⟩
    · split at h <;> obtain rfl := by simpa using h
      all_goals simp [ht]
      all_goals repeat' split
      all_goals simp
    · split at h <;> obtain rfl := by simpa using h
      all_goals simp_all [silences, Reply.failed]
      all_goals repeat' split
      all_goals simp_all
  · have hs : silences m (.op (.qseecomSendCmd req) r) = false := by
      unfold silences
      split at h <;> simp_all
    split at h <;> cases h
    exact .same ht hs

/-- So is a report. -/
theorem step_report {msg : FingerprintMsg} {r : Unit} (h : x.report msg = some y) :
    Step m x (.op (.notify msg) r) y := by
  unfold report at h
  split at h
  · rename_i ht
    split at h <;> cases h
    all_goals exact ⟨by simp [terminal, ht], by rintro ⟨⟩, by simp [silences], by rintro ⟨⟩⟩
  · rename_i ht
    cases h
    exact .same (by simpa [terminal] using ht) rfl

/-- **One event.** -/
theorem step_next {e : HalEvent} (h : x.next m e = some y) : Step m x e y := by
  cases e with
  | op o r =>
    cases o with
    | qseecomSendCmd req => exact step_reply h
    | notify msg => exact step_report h
    | store v a =>
      have hy : y = x := by
        cases v <;> first
          | exact (Option.some.inj h).symm
          | (simp only [next] at h; split at h <;> cases h; rfl)
          | cases h
      rw [hy]
      exact .same rfl rfl
    | _ =>
      first
        | cases h; done
        | (cases h; exact .same rfl rfl)
  | enter c =>
    cases h
    exact .same rfl rfl
  | done c r => cases h

/-- What the worker leaves alone: the state while it is undecided, the slots until it has said
that no samples remain, and the secure user id. -/
theorem next_frame {o : Op} {r : Resp o} (h : x.next m (.op o r) = some y) :
    (y = .waiting → ∀ old, stateAfter old o = old) ∧
      (y ≠ .reported → ∀ old, fingerAfter old o = old) ∧
      ∀ old, (vdevAfter old o).secureUserId = old.secureUserId := by
  cases o with
  | store v a =>
    cases v <;> first
      | exact ⟨fun _ _ => rfl, fun _ _ => rfl, fun _ => rfl⟩
      | (simp only [next] at h
         split at h <;> cases h
         simp_all [stateAfter, fingerAfter, vdevAfter])
      | cases h
  | _ =>
    first
      | exact ⟨fun _ _ => rfl, fun _ _ => rfl, fun _ => rfl⟩
      | cases h

/-- The worker creates no thread. -/
theorem not_born {e : HalEvent} (h : x.next m e = some y) : hal.born e = none := by
  cases e with
  | op o r => cases o <;> first | rfl | cases h
  | enter c | done c r => rfl

end Outcome

/-- What a stage says of the state and of the worker's events. -/
structure Tells (m : Mem) (w : Tid) (s : Hal) (x : Outcome) : Prop where
  state : x = .waiting → s.mem.tz.state = m.tz.state
  slots : x ≠ .reported → s.mem.tz.finger = m.tz.finger
  user : s.mem.vdev.secureUserId = m.vdev.secureUserId
  sent : (s.own w).countP terminal = if x = .reported then 1 else 0
  silent : (s.own w).any (silences m) = decide (x = .silent)

/-- The worker reads what is relied on. -/
theorem Tells.reads {m : Mem} {w : Tid} {s s' : Hal} {x : Outcome} {e : HalEvent}
    (h : Tells m w s x) (hu : m.vdev.secureUserId ≠ 0) (hr : s.Runs fine w e s') :
    outcomeReads m x e := by
  unfold outcomeReads
  split
  · exact fun hx => (load_of_runs hr).trans (h.state hx)
  · rename_i idx r
    intro hx
    rw [← h.slots hx]
    exact load_of_runs hr
  · rw [load_of_runs hr]
    exact fun h0 => hu (h.user.symm.trans h0)
  · trivial

/-- **One step** of the worker. -/
theorem Tells.worker {m : Mem} {w : Tid} {s s' : Hal} {x y : Outcome} {e : HalEvent}
    (h : Tells m w s x) (hr : s.Runs fine w e s') (hy : x.next m e = some y) :
    Tells m w s' y := by
  have hstep := Outcome.step_next hy
  have hown : s'.own w = e :: s.own w := by rw [hr.own, if_pos rfl]
  have hframe : (y = .waiting → s'.mem.tz.state = s.mem.tz.state) ∧
      (y ≠ .reported → s'.mem.tz.finger = s.mem.tz.finger) ∧
      s'.mem.vdev.secureUserId = s.mem.vdev.secureUserId := by
    cases e with
    | op o r =>
      have heff := effect_of_runs hr
      obtain ⟨hstate, hfinger, hvdev⟩ := Outcome.next_frame hy
      refine ⟨fun hw => heff.state.trans (hstate hw _), fun hw => heff.finger.trans (hfinger hw _), ?_⟩
      rw [heff.vdev, hvdev]
    | enter c => simp [mem_of_enters hr]
    | done c r => exact (not_done_of_fine hr).elim
  refine ⟨fun hw => (hframe.1 hw).trans (h.state (hstep.waiting hw)), fun hw => ?_,
    hframe.2.2.trans h.user, ?_, ?_⟩
  · exact (hframe.2.1 hw).trans (h.slots fun hx => hw (hstep.reported.mpr (.inl hx)))
  · rw [hown, List.countP_cons, h.sent]
    by_cases hx : x = .reported
    · simp [hstep.reported.mpr (.inl hx), hx, hstep.once hx]
    · simp [hstep.reported, hx]
  · rw [hown, List.any_cons, h.silent]
    by_cases hx : x = .silent
    · simp [hstep.silent.mpr (.inl hx), hx]
    · simp [hstep.silent, hx]

/-- **One step** of the signal handler. -/
theorem Tells.other {m : Mem} {w t : Tid} {s s' : Hal} {x : Outcome} {e : HalEvent}
    (h : Tells m w s x) (htw : t ≠ w) (hr : s.Runs fine t e s')
    (he : e.within (asideOp false) (asideCall false) = true) : Tells m w s' x := by
  have haside := aside_of_runs hr he
  have hown : s'.own w = s.own w := by rw [hr.own, if_neg htw.symm]
  refine ⟨fun hx => ?_, fun hx => haside.finger.trans (h.slots hx), ?_, hown ▸ h.sent,
    hown ▸ h.silent⟩
  · obtain hstate | ⟨hc, -⟩ := haside.state
    · exact hstate.trans (h.state hx)
    · cases hc
  · rw [haside.vdev, h.user]

/-! ## Every finished session -/

/-- The thread beside the worker: the signal handler. -/
def touches : Call → Bool
  | .sensorProcessSignal => true
  | _ => false

/-- A worker and the state it is started in. -/
def session (m : Mem) (c : Call) : Prop :=
  (c = .vcsAuthenticate ∧ m.tz.state = .stateScan) ∨ (c = .vcsEnroll ∧ m.tz.state = .stateEnroll)

/-- **Every uncancelled session has one outcome.** A finished worker has sent exactly one terminal
message just when no reply has silenced it. -/
theorem oneOutcome_iff {m : Mem} {c : Call} {w : Tid} {s : Hal} (hc : session m c)
    (hu : m.vdev.secureUserId ≠ 0)
    (h : ((Hal.idle m).add w c).Reaches fine touches (fun _ _ _ => True) s)
    (hfin : s.fin w = true) : OneOutcome w s ↔ (s.own w).any (silences m) = false := by
  have hstart : (outcomeProtocol m).Follows fine (.call c .ret)
      (fun _ y => y = .reported ∨ y = .silent) .waiting := by
    obtain ⟨rfl, hstate⟩ | ⟨rfl, hstate⟩ := hc <;> simp [outcomeCalls, outcomeLeaves, hstate]
  have harr : ∀ c, touches c = true → asideCall false c = true := by
    intro c hc
    cases c <;> first | rfl | cases hc
  obtain ⟨x, p, hp, hx, hI⟩ := State.Reaches.lone (Tells m w) outcomeProtocol_valid hstart
    (fun _ => asideCall_within) harr (fun _ => aside_not_born) (fun _ _ _ => Outcome.not_born) (fun _ => rfl)
    ⟨fun _ => rfl, fun _ => rfl, rfl, rfl, rfl⟩
    (fun _ _ _ _ hI _ => ⟨hI.state, hI.slots, hI.user, hI.sent, hI.silent⟩)
    (fun _ _ _ _ hI _ hr => hI.reads hu hr) (fun _ _ _ _ _ _ _ _ hI _ hr hy => hI.worker hr hy)
    (fun _ _ _ _ _ _ _ _ hI htw _ hr he => hI.other htw hr he) h
  have hdecided : x = .reported ∨ x = .silent := by
    cases p with
    | ret a => exact hx
    | _ => simp [State.fin, hp, Prog.finished] at hfin
  unfold OneOutcome
  rw [hI.sent, hI.silent]
  obtain rfl | rfl := hdecided <;> simp

/-- A device that has been told to scan, with the app up and a finger in slot 1. -/
def knownFinger : Mem :=
  { Mem.started with
    tz := { Mem.started.tz with
      state := .stateScan
      finger := Function.update (fun _ => .zero) 1 { Finger.zero with exist := true } }
    vdev := { Device.zero with secureUserId := 7 } }

set_option maxRecDepth 2000 in
/-- The finger is recognised: its worker sends one terminal message. -/
theorem oneOutcome_recognised :
    ∃ s, ((Hal.idle knownFinger).add 1 .vcsAuthenticate).Reaches fine touches
      (fun _ _ _ => True) s ∧ s.fin 1 = true ∧ OneOutcome 1 s := by
  obtain ⟨s, hs, hfin, hsilent⟩ : ∃ s,
      ((Hal.idle knownFinger).add 1 .vcsAuthenticate).exec fine touches (fun _ _ _ => true)
        (ticks 1 2 ++ answer 1 (.good 0) ++ ticks 1 7 ++ answer 1 (.good 0) ++ ticks 1 2 ++
          answer 1 .lost ++ ticks 1 4 ++ .arrive 2 .sensorProcessSignal :: ticks 2 15 ++
          ticks 1 40 ++ answer 1 (.good 2) ++ ticks 1 2 ++ answer 1 (.good 0) ++ ticks 1 14 ++
          answer 1 (.good 0) ++ ticks 1 3 ++ answer 1 (.good 0) ++ ticks 1 5 ++
          answer 1 (.good 0) ++ ticks 1 23) = some s ∧ s.fin 1 = true ∧
      (s.own 1).any (silences knownFinger) = false := ⟨_, rfl, rfl, rfl⟩
  have hr := State.Reaches.refl.exec (fun _ _ _ _ => trivial) hs
  exact ⟨s, hr, hfin, (oneOutcome_iff (.inl ⟨rfl, rfl⟩) (by decide) hr hfin).mpr hsilent⟩

/-- The transport fails for `vfmCaptureStart`: the worker ends without a message. -/
theorem silent_end :
    ∃ s, ((Hal.idle knownFinger).add 1 .vcsAuthenticate).Reaches fine touches
      (fun _ _ _ => True) s ∧ s.fin 1 = true ∧ ¬ OneOutcome 1 s := by
  obtain ⟨s, hs, hfin, hsent⟩ : ∃ s,
      ((Hal.idle knownFinger).add 1 .vcsAuthenticate).exec fine touches (fun _ _ _ => true)
        (ticks 1 2 ++ answer 1 (.good 0) ++ ticks 1 7 ++ answer 1 .lost ++ ticks 1 5 ++
          answer 1 (.good 0) ++ ticks 1 11) = some s ∧ s.fin 1 = true ∧
      (s.own 1).countP terminal = 0 := ⟨_, rfl, rfl, rfl⟩
  refine ⟨s, State.Reaches.refl.exec (fun _ _ _ _ => trivial) hs, hfin, fun h => ?_⟩
  unfold OneOutcome at h
  omega

end KlteCommon.Analysis
