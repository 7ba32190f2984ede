import KlteCommon.Analysis.Outcome
import KlteCommon.Analysis.Release

/-!
# Cancelled or authenticated

`fingerprint_cancel` reports a cancellation once it has seen `STATE_IDLE` behind its own
`STATE_CANCEL`; the worker reports the finger once it has stored `STATE_IDLE` for the last time.
Between the last test of `tz.state` inside the capture and that store, nothing keeps the two
apart.

The ladder: each thread keeps to its protocol (`scanProtocol_valid`, `cancelProtocol_valid`); as
long as a match succeeds only in `STATE_SCAN`, and `STATE_CANCEL` is not stored between the match
and the worker's last store of `STATE_IDLE`, the canceller never gets past its wait once a match
has succeeded (`Apart.worker`, `Apart.other`), so that the framework gets one of the two messages
at most (`cancelExcludesSuccess`). A cancellation right after the match brings it both
(`cancelled_success`).
-/

set_option autoImplicit false

namespace KlteCommon.Analysis

open KlteCommon.Computation KlteCommon.Fingerprint

/-! ## What is observed -/

/-- The message that a finger was authenticated. -/
def authenticates : HalEvent → Bool
  | .op (.notify (.authenticated _ _ _)) _ => true
  | _ => false

/-- The message that a session was cancelled. -/
def reportsCancel : HalEvent → Bool
  | .op (.notify (.error error)) _ => error == fingerprintErrorCanceled
  | _ => false

/-- The framework has not received both messages. -/
def CancelExcludesSuccess (s : Hal) : Prop :=
  (s.log.any fun te => reportsCancel te.2) = true → (s.log.any fun te => authenticates te.2) = false

/-- A match that names a finger, when the slots are those of `m`. -/
def succeeds (m : Mem) : HalEvent → Bool
  | .op (.qseecomSendCmd req) r =>
    req.cmd == .vfmMatchImageToTemplates && !r.failed && namedSlot m r != 0
  | _ => false

/-- The slots are read as they are in `m`. -/
def readsSlots (m : Mem) : HalEvent → Prop
  | .op (.load (.fingerExist idx)) r => r = (m.tz.finger idx).exist
  | _ => True

/-- Worker `w` is bound to store `STATE_IDLE` yet, the slots being those of `m`. -/
def BoundToIdle (m : Mem) (w : Tid) (s : Hal) : Prop :=
  ∀ th, s.pool w = some th → Will hal fine (readsSlots m) (storesStateIdle · = true) th.code

/-- The condition on a step: a match succeeds only in `STATE_SCAN`, and once worker `w` has one
`STATE_CANCEL` is not stored while the worker is bound to store `STATE_IDLE` yet. -/
def keepsApart (m : Mem) (w : Tid) (s : Hal) (t : Tid) (e : HalEvent) : Prop :=
  (succeeds m e = true → s.mem.tz.state = .stateScan) ∧
    (t ≠ w → (∃ r, e = .op (.store .tzState .stateCancel) r) →
      (s.own w).any (succeeds m) = true → ¬ BoundToIdle m w s)

/-! ## The protocols -/

/-- The stages of the worker, by what it has done since its match succeeded, and those of the
other threads, by what they have done since they stored `STATE_CANCEL`. -/
inductive Session
  | scanning
  | matched
  | idled
  | closed
  | before
  | spinning
  | freed
  deriving DecidableEq

namespace Session

/-- Storing `STATE_IDLE`: the second store behind a match is the last one. -/
def idle : Session → Session
  | .matched => .idled
  | .idled => .closed
  | x => x

/-- Whether the worker is past its match and bound to store `STATE_IDLE`. -/
def closing : Session → Bool
  | .matched | .idled => true
  | _ => false

/-- Who is closing stays so by storing `STATE_IDLE`, or is closed. -/
theorem idle_of_closing {x : Session} (hx : x.closing = true) :
    x.idle.closing = true ∨ x.idle = .closed := by
  cases x <;> first | cases hx; done | exact .inl rfl | exact .inr rfl

/-- One event of the worker. -/
def scan (m : Mem) (x : Session) : HalEvent → Option Session
  | .op (.qseecomSendCmd req) r =>
    if req.cmd = .vfmMatchImageToTemplates then
      if x = .scanning then
        some (if succeeds m (.op (.qseecomSendCmd req) r) then .matched else .scanning)
      else none
    else some x
  | .op (.notify (.authenticated _ _ _)) _ => if x = .closed then some x else none
  | .op (.notify (.error error)) _ => if error = fingerprintErrorCanceled then none else some x
  | .op (.store .tzState state) _ =>
    if state = .stateIdle ∧ x ≠ .closed then some x.idle else none
  | .op (.store (.finger _) _) _ | .op (.store (.fingerExist _) _) _ => none
  | .op (.store (.fingerData _) _) _ | .op (.store (.fingerPayload _) _) _ => none
  | .op (.copyData _ _) _ | .op (.copyPayload _ _) _ | .op .clearTz _ => none
  | .op (.pthreadCreate _) _ => none
  | .done _ _ => none
  | _ => some x

/-- One event of another thread. -/
def cancel (x : Session) : HalEvent → Option Session
  | .op (.load .tzState) r => some (if x = .spinning ∧ r = .stateIdle then .freed else x)
  | .op (.store .tzState state) _ =>
    if state = .stateCancel ∧ x = .before then some .spinning else none
  | .op (.notify (.error error)) _ =>
    if error = fingerprintErrorCanceled ∧ x = .freed then some x else none
  | .op o _ => if asideOp false o then some x else none
  | .enter _ => some x
  | .done _ _ => none

end Session

/-- Which procedures the worker calls in which stage. -/
def scanCalls (x : Session) : Call → Prop
  | .vcsAuthenticate | .vcsAuthenticateLoop => x = .scanning
  | .vcsStartCapture _ | .vcsStartCaptureWait | .vcsStartCaptureRead => x = .scanning
  | .vcsCheckState => x = .scanning
  | .sendErrorNotice error => error ≠ fingerprintErrorCanceled
  | .getTzState | .vcsUpdateCalData | .sensorCaptureStart | .vcsGetEnrolledFingerNum => True
  | .setTzState state => state = .stateIdle ∧ x ≠ .closed
  | .vcsUninit => x ≠ .closed
  | .sensorUninit | .vcsUpdateAuthToken | .sendAcquiredNotice _ => True
  | .sendAuthenticatedNotice _ => x = .closed
  | _ => False

/-- The stages of the worker a procedure may be left in. -/
def scanLeaves (x : Session) : (c : Call) → Ret c → Session → Prop
  | .vcsAuthenticate, _, y => y = .scanning ∨ y = .closed
  | .vcsAuthenticateLoop, r, y => (r ≠ 0 ∧ y = .matched) ∨ (r = 0 ∧ y = .scanning)
  | .setTzState _, _, y | .vcsUninit, _, y => y = x.idle
  | _, _, y => y = x

/-- The protocol of the worker. -/
@[simps] def scanProtocol (m : Mem) : Protocol Resp Ret Session where
  assume _ e := readsSlots m e
  next x e := x.scan m e
  pre c x := scanCalls x c
  post c x r y := scanLeaves x c r y

/-- Which procedures another thread calls in which stage. -/
def cancelCalls (x : Session) : Call → Prop
  | .fingerprintCancel | .sensorProcessSignal => x = .before
  | .getTzState => x ≠ .spinning
  | .setTzState state => state = .stateCancel ∧ x = .before
  | .fingerprintCancelLoop => x = .spinning
  | .sendErrorNotice error => error = fingerprintErrorCanceled ∧ x = .freed
  | _ => False

/-- The stages of another thread a procedure may be left in. -/
def cancelLeaves (x : Session) : (c : Call) → Ret c → Session → Prop
  | .fingerprintCancel, _, _ => True
  | .setTzState _, _, y => y = .spinning
  | .fingerprintCancelLoop, _, y => y = .freed
  | _, _, y => y = x

/-- The protocol of the other threads. -/
@[simps] def cancelProtocol : Protocol Resp Ret Session where
  assume _ _ := True
  next x e := x.cancel e
  pre c x := cancelCalls x c
  post c x r y := cancelLeaves x c r y

section

variable (m : Mem) (x y : Session) (c : Call) (r : Ret c) (e : HalEvent)

/-- A call of the worker by its contract. -/
@[simp ↓] theorem callRule_scan (Q : Ret c → Session → Prop) :
    (scanProtocol m).callRule fine c Q x ↔ scanCalls x c ∧ ∀ r y, scanLeaves x c r y → Q r y := by
  simp [Protocol.callRule, fine, scanProtocol, Session.scan, readsSlots]

/-- A call of the others by its contract. -/
@[simp ↓] theorem callRule_cancel (Q : Ret c → Session → Prop) :
    cancelProtocol.callRule fine c Q x ↔
      cancelCalls x c ∧ ∀ r y, cancelLeaves x c r y → Q r y := by
  simp [Protocol.callRule, fine, cancelProtocol, Session.cancel]

end

/-! ## The bodies keep to them -/

section bodies

attribute [local simp ↓] load store op call send ionSbuffer sameIonSbuffer

attribute [local simp] scanCalls scanLeaves cancelCalls cancelLeaves Session.scan Session.cancel
  Session.idle succeeds readsSlots

variable {m : Mem}

/-- Code that only reads the slots keeps the stage. -/
theorem scan_readsSlot {α : Type} {p : Code α} {Q : α → Session → Prop} {x : Session}
    (hp : p.Within Op.readsSlot fun _ => False) (hQ : ∀ a, Q a x) :
    (scanProtocol m).Follows fine p Q x := by
  refine .frame hp (fun o ho r => ?_) hQ
  cases o with
  | load v => rfl
  | _ => exact ho.elim

/-- The scan behind a match reply finds the slot that the reply names. -/
theorem scan_findMatched {Q : ℤ → Session → Prop} {x : Session} (r : Reply)
    (hQ : Q (namedSlot m r) x) : (scanProtocol m).Follows fine
      (findMatched (r.data 22 + 1) 0 maxNumFingers 1 0) Q x :=
  follows_matchedSlot _ _ _ (fun _ _ _ _ h => ⟨h, rfl⟩) hQ

/-- The worker's bodies keep to its protocol. -/
theorem scanProtocol_valid : (scanProtocol m).Valid fine body := by
  intro c _ x hx
  cases c
  all_goals simp at hx
  case getTzState => simp [body, getTzState]
  case setTzState => simp [body, setTzState, hx]
  case vcsUpdateCalData => simp [body, vcsUpdateCalData]
  case vcsCheckState => simp [body, vcsCheckState, hx]
  case vcsStartCapture => simp [body, vcsStartCapture, hx]
  case vcsStartCaptureWait => simp [body, vcsStartCaptureWait, hx]
  case vcsStartCaptureRead => simp [body, vcsStartCaptureRead, hx]
  case vcsAuthenticate =>
    simp [body, vcsAuthenticate, hx]
    rintro _ r y (⟨hr, rfl⟩ | ⟨rfl, rfl⟩) <;> simp_all
  case vcsAuthenticateLoop =>
    simp [body, vcsAuthenticateLoop, hx]
    intro _ _ _ _
    refine scan_readsSlot (matchTemplates_within ..) fun _ => ?_
    simp
    intro resp
    by_cases hret : resp.ret = 0
    · by_cases hresult : resp.result = 0
      · by_cases hslot : namedSlot m resp = 0
        · simp [Reply.failed, hret, hresult, hslot]
          exact scan_findMatched resp (by simp [hslot])
        · simp [Reply.failed, hret, hresult, hslot]
          exact scan_findMatched resp (by simp [hslot])
      · simp [Reply.failed, hret, hresult]
    · simp [Reply.failed, hret, fingerprintErrorUnableToProcess, fingerprintErrorCanceled]
  case vcsGetEnrolledFingerNum =>
    exact scan_readsSlot (countFingers_within ..) fun num => by simp
  case vcsUpdateAuthToken => simp [body, vcsUpdateAuthToken, getAuthToken]
  case vcsUninit => simp [body, vcsUninit, hx]
  case sensorUninit => simp [body, sensorUninit]
  case sensorCaptureStart => simp [body, sensorCaptureStart]
  case sendErrorNotice => simp [body, sendErrorNotice, hx]
  case sendAcquiredNotice => simp [body, sendAcquiredNotice]
  case sendAuthenticatedNotice => simp [body, sendAuthenticatedNotice, hx]

/-- The others' bodies keep to theirs. -/
theorem cancelProtocol_valid : cancelProtocol.Valid fine body := by
  intro c _ x hx
  cases c
  all_goals simp at hx
  case getTzState => simp [body, getTzState, hx]
  case setTzState => simp [body, setTzState, hx]
  case sensorProcessSignal => simp [body, sensorProcessSignal, hx]
  case fingerprintCancel =>
    simp [body, fingerprintCancel, hx]
    rintro _ _ (_ | _) <;> simp
  case fingerprintCancelLoop => simp [body, fingerprintCancelLoop, hx]
  case sendErrorNotice => simp [body, sendErrorNotice, hx]

end bodies

/-- A worker between its match and its last store of `STATE_IDLE` is bound to store it. -/
theorem scan_will {m : Mem} {α : Type} {p : Code α} {Q : α → Session → Prop} {x : Session}
    (hp : (scanProtocol m).Follows fine p Q x) (hQ : ∀ a y, Q a y → y.closing = false)
    (hx : x.closing = true) : Will hal fine (readsSlots m) (storesStateIdle · = true) p := by
  refine hp.will scanProtocol_valid (fun _ _ he => he) (D := fun x => x.closing = true) ?_
    (fun a y hy => by simp [hQ a y hy]) hx
  intro x e y hx hy
  replace hy : x.scan m e = some y := hy
  unfold Session.scan at hy
  split at hy
  case h_1 =>
    split at hy
    · split at hy
      · rename_i hscan
        simp [hscan, Session.closing] at hx
      · cases hy
    · cases hy
      exact .inr hx
  case h_4 =>
    split at hy <;> cases hy
    rename_i hstate
    exact .inl (by simp [storesStateIdle, hstate.1])
  all_goals first
    | cases hy; done
    | (cases hy; exact .inr hx)
    | (split at hy <;> cases hy; exact .inr hx)

/-! ## What a step does -/

section steps

variable {m : Mem} {x y : Session} {e : HalEvent}

/-- What a step of the worker is: its match succeeds, it stores `STATE_IDLE`, or it leaves the
stage and the state. -/
theorem scan_cases (h : x.scan m e = some y) :
    (succeeds m e = true ∧ authenticates e = false ∧ storesStateIdle e = false ∧
        x = .scanning ∧ y = .matched) ∨
      (succeeds m e = false ∧ authenticates e = false ∧ storesStateIdle e = true ∧
        x ≠ .closed ∧ y = x.idle) ∨
      (succeeds m e = false ∧ (authenticates e = true → x = .closed) ∧
        storesStateIdle e = false ∧ y = x) := by
  cases e with
  | op o r =>
    cases o with
    | qseecomSendCmd req =>
      simp only [Session.scan] at h
      by_cases hcmd : req.cmd = .vfmMatchImageToTemplates
      · rw [if_pos hcmd] at h
        split at h <;> cases h
        rename_i hx
        by_cases hs : succeeds m (.op (.qseecomSendCmd req) r) = true
        · exact .inl ⟨hs, rfl, rfl, hx, if_pos hs⟩
        · exact .inr (.inr ⟨by simpa using hs, by rintro ⟨⟩, rfl, by rw [if_neg hs, hx]⟩)
      · rw [if_neg hcmd] at h
        cases h
        exact .inr (.inr ⟨by simp [succeeds, hcmd], by rintro ⟨⟩, rfl, rfl⟩)
    | notify msg =>
      refine .inr (.inr ?_)
      cases msg with
      | authenticated fid gid hat =>
        simp only [Session.scan] at h
        split at h <;> cases h
        exact ⟨rfl, fun _ => ‹_›, rfl, rfl⟩
      | error error =>
        simp only [Session.scan] at h
        split at h <;> cases h
        exact ⟨rfl, by rintro ⟨⟩, rfl, rfl⟩
      | _ =>
        cases h
        exact ⟨rfl, by rintro ⟨⟩, rfl, rfl⟩
    | store v a =>
      cases v with
      | tzState =>
        simp only [Session.scan] at h
        split at h <;> cases h
        rename_i hx
        exact .inr (.inl ⟨rfl, rfl, by simp [storesStateIdle, hx.1], hx.2, rfl⟩)
      | _ =>
        first
          | cases h; done
          | (cases h; exact .inr (.inr ⟨rfl, by rintro ⟨⟩, rfl, rfl⟩))
    | _ =>
      first
        | cases h; done
        | (cases h; exact .inr (.inr ⟨rfl, by rintro ⟨⟩, rfl, rfl⟩))
  | enter c =>
    cases h
    exact .inr (.inr ⟨rfl, by rintro ⟨⟩, rfl, rfl⟩)
  | done c r => cases h

/-- The worker reports no cancellation, leaves the slots and creates no thread. -/
theorem scan_frame (h : x.scan m e = some y) : reportsCancel e = false ∧ hal.born e = none ∧
    ∀ o r, e = .op o r → ∀ old, fingerAfter old o = old := by
  cases e with
  | op o r =>
    suffices hall : reportsCancel (.op o r) = false ∧ hal.born (.op o r) = none ∧
        ∀ old, fingerAfter old o = old by
      exact ⟨hall.1, hall.2.1, fun o' r' heq => by cases heq; exact hall.2.2⟩
    cases o with
    | notify msg =>
      cases msg with
      | error error =>
        simp only [Session.scan] at h
        split at h <;> cases h
        rename_i hne
        exact ⟨by simpa [reportsCancel] using hne, rfl, fun _ => rfl⟩
      | _ => exact ⟨rfl, rfl, fun _ => rfl⟩
    | store v a =>
      cases v <;> first
        | exact ⟨rfl, rfl, fun _ => rfl⟩
        | cases h
    | _ =>
      first
        | exact ⟨rfl, rfl, fun _ => rfl⟩
        | cases h
  | enter c => exact ⟨rfl, rfl, by simp⟩
  | done c r => cases h

/-- What a step of another thread is: it sees `STATE_IDLE` behind its own `STATE_CANCEL`, it
stores `STATE_CANCEL`, it reports the cancellation, or it leaves the stage and the state. -/
theorem cancel_cases (h : x.cancel e = some y) :
    authenticates e = false ∧ e.within (asideOp true) (fun _ => true) = true ∧
      ((e = .op (.load .tzState) .stateIdle ∧ reportsCancel e = false ∧ x = .spinning ∧
          y = .freed) ∨
        (e = .op (.store .tzState .stateCancel) () ∧ reportsCancel e = false ∧ x = .before ∧
          y = .spinning) ∨
        ((∀ r, e ≠ .op (.store .tzState .stateCancel) r) ∧
          (reportsCancel e = true → x = .freed) ∧ y = x)) := by
  cases e with
  | op o r =>
    cases o with
    | load v =>
      refine ⟨rfl, rfl, ?_⟩
      cases v with
      | tzState =>
        cases h
        by_cases hx : x = .spinning ∧ r = .stateIdle
        · exact .inl ⟨by rw [hx.2], rfl, hx.1, if_pos hx⟩
        · exact .inr (.inr ⟨nofun, nofun, if_neg hx⟩)
      | _ =>
        cases h
        exact .inr (.inr ⟨nofun, nofun, rfl⟩)
    | store v a =>
      cases v with
      | tzState =>
        simp only [Session.cancel] at h
        split at h <;> cases h
        rename_i hx
        obtain ⟨rfl, rfl⟩ := hx
        exact ⟨rfl, rfl, .inr (.inl ⟨rfl, rfl, rfl, rfl⟩)⟩
      | _ =>
        first
          | cases h; done
          | (cases h; exact ⟨rfl, rfl, .inr (.inr ⟨nofun, nofun, rfl⟩)⟩)
    | notify msg =>
      cases msg with
      | error error =>
        simp only [Session.cancel] at h
        split at h <;> cases h
        rename_i hx
        exact ⟨rfl, rfl, .inr (.inr ⟨nofun, fun _ => hx.2, rfl⟩)⟩
      | _ => cases h
    | _ =>
      first
        | cases h; done
        | (cases h; exact ⟨rfl, rfl, .inr (.inr ⟨nofun, nofun, rfl⟩)⟩)
  | enter c =>
    cases h
    exact ⟨rfl, rfl, .inr (.inr ⟨nofun, nofun, rfl⟩)⟩
  | done c r => cases h

end steps

/-! ## Every run -/

/-- The worker keeps to `scanProtocol`, the others to `cancelProtocol`. -/
def scanRoles (m : Mem) : Roles Resp Ret Session where
  protocol
    | .vcsAuthenticate => scanProtocol m
    | _ => cancelProtocol
  away := .before
  start
    | .vcsAuthenticate => .scanning
    | _ => .before
  final
    | .vcsAuthenticate, _, y => y.closing = false
    | _, _, _ => True

/-- The invariant. Once a match has succeeded nobody is behind his wait, and until the worker has
closed nobody waits; while nothing has succeeded the state tells whether somebody may. -/
structure Apart (m : Mem) (w : Tid) (s : Hal) (φ : Tid → Session) : Prop where
  entry : ∀ t, s.entry t = some .vcsAuthenticate ↔ t = w
  slots : s.mem.tz.finger = m.tz.finger
  worker : φ w = .scanning ∨ (φ w).closing = true ∨ φ w = .closed
  matched : (φ w).closing = true → (s.own w).any (succeeds m) = true
  closed : (s.log.any fun te => authenticates te.2) = true → φ w = .closed
  freed : φ w ≠ .scanning ∨ s.mem.tz.state = .stateScan →
    (∀ t, t ≠ w → φ t ≠ .freed) ∧ (s.log.any fun te => reportsCancel te.2) = false
  calm : (φ w).closing = true ∨ φ w = .scanning ∧ s.mem.tz.state = .stateScan →
    ∀ t, t ≠ w → φ t ≠ .spinning
  waits : φ w = .closed → ∀ t, t ≠ w → φ t = .spinning → s.mem.tz.state = .stateCancel

section steps

variable {m : Mem} {w t : Tid} {s s' : Hal} {φ : Tid → Session} {x y : Session} {e : HalEvent}

/-- The worker leaves the slots as they are. -/
theorem slots_of_scan (hr : s.Runs fine t e s') (hy : x.scan m e = some y) :
    s'.mem.tz.finger = s.mem.tz.finger := by
  obtain ⟨-, -, hfinger⟩ := scan_frame hy
  cases e with
  | op o r => rw [(effect_of_runs hr).finger, hfinger o r rfl]
  | enter c => rw [mem_of_enters hr]
  | done c r => exact (not_done_of_fine hr).elim

/-- The worker stores `STATE_IDLE` or leaves the state. -/
theorem state_of_scan (hr : s.Runs fine t e s') (hy : x.scan m e = some y)
    (he : storesStateIdle e = false) : s'.mem.tz.state = s.mem.tz.state := by
  cases e with
  | op o r =>
    rw [(effect_of_runs hr).state]
    unfold stateAfter
    split
    · simp only [Session.scan] at hy
      split at hy
      · rename_i hstate
        simp [storesStateIdle, hstate.1] at he
      · cases hy
    · cases hy
    · rfl
  | enter c => rw [mem_of_enters hr]
  | done c r => exact (not_done_of_fine hr).elim

/-- **One step** of the worker. -/
theorem Apart.run (h : Apart m w s φ) (hok : keepsApart m w s w e) (hr : s.Runs fine w e s')
    (hy : (φ w).scan m e = some y) : Apart m w s' (Function.update φ w y) := by
  obtain ⟨hreport, hborn, -⟩ := scan_frame hy
  have hslots := (slots_of_scan hr hy).trans h.slots
  have hlog := hr.log
  have hown : s'.own w = e :: s.own w := by rw [hr.own, if_pos rfl]
  have hreports : (s'.log.any fun te => reportsCancel te.2) =
      s.log.any fun te => reportsCancel te.2 := by simp [hlog, hreport]
  have hothers : ∀ z, (∀ t, t ≠ w → φ t ≠ z) → ∀ t, t ≠ w → Function.update φ w y t ≠ z := by
    intro z hz t ht
    rw [Function.update_of_ne ht]
    exact hz t ht
  have hentry : ∀ t, s'.entry t = some .vcsAuthenticate ↔ t = w := by
    intro t
    rw [hr.entry, hborn, ← h.entry t]
    simp
  obtain ⟨hs, ha, hi, hx, rfl⟩ | ⟨hs, ha, hi, hx, rfl⟩ | ⟨hs, ha, hi, rfl⟩ := scan_cases hy
  · -- the match succeeds in `STATE_SCAN`, so nobody has stored `STATE_CANCEL`
    have hscan := hok.1 hs
    obtain ⟨hfreed, hnone⟩ := h.freed (.inr hscan)
    have hcalm := h.calm (.inr ⟨hx, hscan⟩)
    refine ⟨hentry, hslots, by simp [Session.closing], by simp [hown, hs], ?_,
      fun _ => ⟨hothers _ hfreed, hreports.trans hnone⟩, fun _ => hothers _ hcalm, by simp⟩
    intro hauth
    simp only [hlog, List.any_cons, ha, Bool.false_or] at hauth
    simp [h.closed hauth] at hx
  · -- `STATE_IDLE` is stored
    have hidle := state_of_storesStateIdle hr hi
    have hauths : (s'.log.any fun te => authenticates te.2) = true → φ w = .closed := by
      intro hauth
      simp only [hlog, List.any_cons, ha, Bool.false_or] at hauth
      exact h.closed hauth
    obtain hw | hw | hw := h.worker
    · refine ⟨hentry, hslots, by simp [hw, Session.idle], by simp [hw, Session.idle, Session.closing],
        fun hauth => absurd (hauths hauth) hx, ?_, ?_, by simp [hw, Session.idle]⟩
      · simp [hw, Session.idle, hidle]
      · simp [hw, Session.idle, hidle, Session.closing]
    · obtain ⟨hfreed, hnone⟩ := h.freed (.inl fun hscan => by simp [hscan, Session.closing] at hw)
      have hcalm := h.calm (.inl hw)
      have hmatched := h.matched hw
      refine ⟨hentry, hslots, ?_, by simp [hown, hmatched], fun hauth => absurd (hauths hauth) hx,
        fun _ => ⟨hothers _ hfreed, hreports.trans hnone⟩, fun _ => hothers _ hcalm, fun _ t ht => ?_⟩
      · rw [Function.update_self]
        exact .inr (Session.idle_of_closing hw)
      · intro hspin
        exact absurd hspin (hothers _ hcalm t ht)
    · exact absurd hw hx
  · -- nothing happens
    have hstate := state_of_scan hr hy hi
    rw [Function.update_eq_self]
    refine ⟨hentry, hslots, h.worker, fun hw => by simp [hown, h.matched hw], ?_, ?_, ?_, ?_⟩
    · intro hauth
      simp only [hlog, List.any_cons, Bool.or_eq_true] at hauth
      exact hauth.elim ha h.closed
    · rw [hstate, hreports]
      exact h.freed
    · rw [hstate]
      exact h.calm
    · rw [hstate]
      exact h.waits

/-- An arrival of another thread. -/
theorem Apart.arrive {c : Call} (h : Apart m w s φ) (htw : t ≠ w) (hc : c ≠ .vcsAuthenticate) :
    Apart m w (s.add t c) (Function.update φ t .before) := by
  have hw : Function.update φ t .before w = φ w := Function.update_of_ne htw.symm ..
  have hothers : ∀ z, .before ≠ z → (∀ u, u ≠ w → φ u ≠ z) →
      ∀ u, u ≠ w → Function.update φ t .before u ≠ z := by
    intro z hz hφ u hu
    by_cases hut : u = t
    · rwa [hut, Function.update_self]
    · rw [Function.update_of_ne hut]
      exact hφ u hu
  refine ⟨fun u => ?_, h.slots, hw ▸ h.worker, hw ▸ h.matched, hw ▸ h.closed, ?_, ?_, ?_⟩
  · rw [State.entry_add]
    split
    · subst u
      simp [hc, htw]
    · exact h.entry u
  · rw [hw]
    exact fun hfree => ⟨hothers _ (by decide) (h.freed hfree).1, (h.freed hfree).2⟩
  · rw [hw]
    exact fun hcalm => hothers _ (by decide) (h.calm hcalm)
  · rw [hw]
    intro hclosed u hu hspin
    by_cases hut : u = t
    · rw [hut, Function.update_self] at hspin
      cases hspin
    · rw [Function.update_of_ne hut] at hspin
      exact h.waits hclosed u hu hspin

/-- The slots are read as they are. -/
theorem Apart.reads (h : Apart m w s φ) (hr : s.Runs fine t e s') : readsSlots m e := by
  unfold readsSlots
  split
  · rw [← h.slots]
    exact load_of_runs hr
  · trivial

/-- The worker is bound to store `STATE_IDLE` behind its match. -/
theorem Apart.bound (h : Apart m w s φ) (hs : Staged (scanRoles m) fine s.pool φ)
    (hclosing : (φ w).closing = true) : BoundToIdle m w s := by
  rintro ⟨d, code⟩ hth
  have hd := (h.entry w).mpr rfl
  rw [State.entry, hth] at hd
  obtain rfl : d = .vcsAuthenticate := by simpa using hd
  exact scan_will (hs.follows w _ hth) (fun _ _ hy => hy) hclosing

/-- **One step** of another thread. -/
theorem Apart.other (h : Apart m w s φ) (htw : t ≠ w) (hok : keepsApart m w s t e)
    (hbound : (φ w).closing = true → BoundToIdle m w s) (hr : s.Runs fine t e s')
    (hy : (φ t).cancel e = some y) : Apart m w s' (Function.update φ t y) := by
  obtain ⟨hauth, hwithin, hcases⟩ := cancel_cases hy
  have haside := aside_of_runs hr hwithin
  have hlog := hr.log
  have hown : s'.own w = s.own w := by rw [hr.own, if_neg htw.symm]
  have hw : Function.update φ t y w = φ w := Function.update_of_ne htw.symm ..
  have hauths : (s'.log.any fun te => authenticates te.2) =
      s.log.any fun te => authenticates te.2 := by simp [hlog, hauth]
  have hentry : ∀ t, s'.entry t = some .vcsAuthenticate ↔ t = w := by
    intro u
    rw [hr.entry, aside_not_born hwithin, ← h.entry u]
    simp
  have hothers : ∀ z, y ≠ z → (∀ u, u ≠ w → φ u ≠ z) →
      ∀ u, u ≠ w → Function.update φ t y u ≠ z := by
    intro z hyz hz u hu
    by_cases hut : u = t
    · rwa [hut, Function.update_self]
    · rw [Function.update_of_ne hut]
      exact hz u hu
  obtain ⟨rfl, hreport, hx, rfl⟩ | ⟨rfl, hreport, -, rfl⟩ | ⟨hne, hreport, rfl⟩ := hcases
  · -- the canceller sees `STATE_IDLE`: no match has succeeded
    have hidle : s.mem.tz.state = .stateIdle := (load_of_runs hr).symm
    have hidle' : s'.mem.tz.state = .stateIdle := by
      rw [state_of_aside hr hwithin nofun, hidle]
    have hscan : φ w = .scanning := by
      obtain hscan | hclosing | hclosed := h.worker
      · exact hscan
      · exact absurd hx (h.calm (.inl hclosing) t htw)
      · have hcancel := h.waits hclosed t htw hx
        simp [hidle] at hcancel
    refine ⟨hentry, haside.finger.trans h.slots, by simp [hw, hscan], ?_, ?_, ?_, ?_, ?_⟩
    · simp [hw, hscan, Session.closing]
    · rw [hauths, hw]
      exact h.closed
    all_goals simp [hw, hscan, hidle', Session.closing]
  · -- `STATE_CANCEL` is stored: no match has succeeded, or the worker has closed
    have hopen : (φ w).closing = false := by
      by_contra hclosing
      have hclosing : (φ w).closing = true := by simpa using hclosing
      exact hok.2 htw ⟨_, rfl⟩ (h.matched hclosing) (hbound hclosing)
    have hcancel : s'.mem.tz.state = .stateCancel := (effect_of_runs hr).state
    refine ⟨hentry, haside.finger.trans h.slots, by simpa [hw] using h.worker, ?_, ?_, ?_, ?_,
      fun _ _ _ _ => hcancel⟩
    · simp [hw, hopen]
    · rw [hauths, hw]
      exact h.closed
    · simp only [hw, hcancel, reduceCtorEq, or_false]
      intro hwne
      obtain ⟨hfreed, hnone⟩ := h.freed (.inl hwne)
      exact ⟨hothers _ (by decide) hfreed, by simp [hlog, hreport, hnone]⟩
    · simp [hw, hopen, hcancel]
  · -- the stage is left alone
    have hstate := state_of_aside hr hwithin hne
    rw [Function.update_eq_self]
    refine ⟨hentry, haside.finger.trans h.slots, h.worker, hown ▸ h.matched, ?_, ?_, ?_, ?_⟩
    · rw [hauths]
      exact h.closed
    · rw [hstate]
      intro hw
      obtain ⟨hfreed, hnone⟩ := h.freed hw
      refine ⟨hfreed, ?_⟩
      rw [hlog, List.any_cons, hnone, Bool.or_false]
      by_contra hrep
      exact hfreed t htw (hreport (by simpa using hrep))
    · rw [hstate]
      exact h.calm
    · rw [hstate]
      exact h.waits

end steps

/-- Nobody creates a thread. -/
theorem scan_not_born {m : Mem} {d : Call} {x y : Session} {e : HalEvent}
    (h : ((scanRoles m).protocol d).next x e = some y) : hal.born e = none := by
  unfold scanRoles at h
  dsimp only at h
  split at h
  · exact (scan_frame h).2.1
  · exact aside_not_born (cancel_cases h).2.1

/-- Everyone but the worker has the other protocol. -/
theorem scanRoles_protocol {m : Mem} {d : Call} (hd : d ≠ .vcsAuthenticate) :
    (scanRoles m).protocol d = cancelProtocol := by
  cases d <;> first | rfl | exact absurd rfl hd

/-- The threads beside the worker: those that cancel it and the signal handler. -/
def cancelsOrTouches : Call → Bool
  | .fingerprintCancel | .sensorProcessSignal => true
  | _ => false

/-- **Cancel excludes success.** In a run in which a match succeeds only in `STATE_SCAN`, and
`STATE_CANCEL` is not stored between the match and the last store of `STATE_IDLE`, the framework
does not receive that the session was cancelled and that a finger was authenticated. -/
theorem cancelExcludesSuccess {m : Mem} {w : Tid} {s : Hal}
    (h : ((Hal.idle m).add w .vcsAuthenticate).Reaches fine cancelsOrTouches (keepsApart m w) s) :
    CancelExcludesSuccess s := by
  have hne : ∀ c, cancelsOrTouches c = true → c ≠ .vcsAuthenticate := by
    rintro _ hc rfl
    cases hc
  have hscan : (scanRoles m).Starts fine .vcsAuthenticate := by
    simp [Roles.Starts, scanRoles, scanCalls, scanLeaves, Session.closing]
  have hstarts : ∀ c, cancelsOrTouches c = true → (scanRoles m).Starts fine c := by
    intro c hc
    cases c <;> first
      | cases hc; done
      | simp [Roles.Starts, scanRoles, cancelCalls]
  obtain ⟨φ, -, hI⟩ : ∃ φ, Staged (scanRoles m) fine s.pool φ ∧ Apart m w s φ := by
    refine State.Reaches.staged (fun t => if t = w then .scanning else .before) ?_ ?_ hstarts ?_ ?_
      ?_ ?_ ?_ h
    · intro c
      unfold scanRoles
      dsimp only
      split
      · exact scanProtocol_valid
      · exact cancelProtocol_valid
    · intro d x e y u c hy hb
      rw [scan_not_born hy] at hb
      cases hb
    · refine ⟨fun t th ht => ?_, fun t ht => ?_⟩
      · rw [State.pool_add] at ht
        split at ht
        · cases ht
          subst t
          simp only [if_true]
          exact hscan
        · cases ht
      · rw [State.pool_add] at ht
        split at ht
        · cases ht
        · rename_i htw
          simp [htw, scanRoles]
    · refine ⟨fun t => ?_, rfl, .inl (by simp), by simp [Session.closing], by rintro ⟨⟩, fun _ => ?_, fun _ => ?_,
        by simp⟩
      · rw [State.entry_add]
        split <;> simp_all [Hal.idle, State.entry]
      · exact ⟨fun t ht => by simp [ht], rfl⟩
      · exact fun t ht => by simp [ht]
    · rintro s φ t c - hI hc ht
      have htw : t ≠ w := by
        rintro rfl
        have := (hI.entry t).mpr rfl
        simp [State.entry, ht] at this
      have hstart : (scanRoles m).start c = .before := by
        cases c <;> first | rfl | exact absurd rfl (hne _ hc)
      rw [hstart]
      exact hI.arrive htw (hne c hc)
    · rintro s φ t ⟨d, code⟩ e s' - hI - hth hr
      unfold scanRoles
      dsimp only
      split
      · exact hI.reads hr
      · trivial
    · rintro s φ t ⟨d, code⟩ e s' y hs hI hok hth hr hy -
      have hb := scan_not_born hy
      have hd : s.entry t = some d := by rw [State.entry, hth]; rfl
      simp only [stagesAfter, hb]
      by_cases htw : t = w
      · subst htw
        obtain rfl : d = .vcsAuthenticate := by simpa [hd] using (hI.entry t).mpr rfl
        exact hI.run hok hr hy
      · have hdw : d ≠ .vcsAuthenticate := by
          rintro rfl
          exact htw ((hI.entry t).mp hd)
        have hprot := scanRoles_protocol (m := m) hdw
        rw [show (⟨d, code⟩ : Thread Resp Ret).entry = d from rfl, hprot] at hy
        exact hI.other htw hok (hI.bound hs) hr hy
  intro hreport
  by_contra hauth
  have hclosed := hI.closed (by simpa using hauth)
  simp [(hI.freed (.inl (by simp [hclosed]))).2] at hreport

/-- `keepsApart` when no match has succeeded, executably. -/
def keepsApartB (m : Mem) (w : Tid) (s : Hal) (_ : Tid) (e : HalEvent) : Bool :=
  (!succeeds m e || s.mem.tz.state == .stateScan) &&
    match e with
    | .op (.store .tzState .stateCancel) _ => !(s.own w).any (succeeds m)
    | _ => true

/-- `keepsApart` from its executable form. -/
theorem keepsApart_of {m : Mem} {w t : Tid} {s : Hal} {e : HalEvent}
    (h : keepsApartB m w s t e = true) : keepsApart m w s t e := by
  obtain ⟨hscan, hnone⟩ := Bool.and_eq_true_iff.mp h
  refine ⟨fun hs => by simpa [hs] using hscan, ?_⟩
  rintro - ⟨r, rfl⟩ hsome
  simp [hsome] at hnone

set_option maxRecDepth 2000 in
/-- A cancellation while the worker waits for the finger: the framework hears of that alone. -/
theorem cancelExcludesSuccess_waiting :
    ∃ s, ((Hal.idle knownFinger).add 1 .vcsAuthenticate).Reaches fine cancelsOrTouches
      (keepsApart knownFinger 1) s ∧ (s.log.any fun te => reportsCancel te.2) = true ∧
      CancelExcludesSuccess s := by
  obtain ⟨s, hs, hreport⟩ : ∃ s,
      ((Hal.idle knownFinger).add 1 .vcsAuthenticate).exec fine cancelsOrTouches
        (keepsApartB knownFinger 1)
        (ticks 1 2 ++ answer 1 (.good 0) ++ ticks 1 7 ++ answer 1 (.good 0) ++ ticks 1 2 ++
          answer 1 (.good 0) ++ ticks 1 21 ++ .arrive 2 .fingerprintCancel :: ticks 2 16 ++
          touch 2 1 ++ ticks 2 1 ++ ticks 1 12 ++ answer 1 (.good 0) ++ ticks 1 16 ++
          answer 1 (.good 0) ++ ticks 1 11 ++ ticks 2 7) = some s ∧
      (s.log.any fun te => reportsCancel te.2) = true := ⟨_, rfl, rfl⟩
  have hr : ((Hal.idle knownFinger).add 1 .vcsAuthenticate).Reaches fine cancelsOrTouches
      (keepsApart knownFinger 1) s := State.Reaches.refl.exec (fun _ _ _ => keepsApart_of) hs
  exact ⟨s, hr, hreport, cancelExcludesSuccess hr⟩

set_option maxRecDepth 2000 in
/-- A cancellation right after the match: the framework hears that the session was cancelled and
that the finger was authenticated. -/
theorem cancelled_success :
    ∃ s, ((Hal.idle knownFinger).add 1 .vcsAuthenticate).Reaches fine cancelsOrTouches
      (fun _ _ _ => True) s ∧ ¬ CancelExcludesSuccess s := by
  obtain ⟨s, hs, hreport, hauth⟩ : ∃ s,
      ((Hal.idle knownFinger).add 1 .vcsAuthenticate).exec fine cancelsOrTouches
        (fun _ _ _ => true)
        (ticks 1 2 ++ answer 1 (.good 0) ++ ticks 1 7 ++ answer 1 (.good 0) ++ ticks 1 2 ++
          answer 1 .lost ++ ticks 1 4 ++ .arrive 2 .sensorProcessSignal :: ticks 2 15 ++
          ticks 1 40 ++ answer 1 (.good 2) ++ ticks 1 2 ++ answer 1 (.good 0) ++ ticks 1 14 ++
          answer 1 (.good 0) ++ .arrive 3 .fingerprintCancel :: ticks 3 20 ++ ticks 1 3 ++
          answer 1 (.good 0) ++ ticks 1 5 ++ answer 1 (.good 0) ++ ticks 1 23 ++ ticks 3 5) =
        some s ∧
      (s.log.any fun te => reportsCancel te.2) = true ∧
      (s.log.any fun te => authenticates te.2) = true := ⟨_, rfl, rfl, rfl⟩
  refine ⟨s, State.Reaches.refl.exec (fun _ _ _ _ => trivial) hs, fun h => ?_⟩
  simp [h hreport] at hauth

end KlteCommon.Analysis
