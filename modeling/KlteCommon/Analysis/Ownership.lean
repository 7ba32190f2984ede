import KlteCommon.Computation.Paths
import KlteCommon.Fingerprint.Effects
import KlteCommon.Fingerprint.Loops

/-!
# A busy state has an owner

While `tz.state` is not `STATE_IDLE`, some thread owes the `STATE_IDLE` the cancelling threads
wait for: a worker that is bound to store it, or a starter that is bound to create a worker.

The ladder: the bodies keep to `ownerProtocol` (`ownerProtocol_valid`), so that every worker is
bound to store `STATE_IDLE` (`worker_will`) and a starter that has set the state is bound to
create one (`starter_will`); an owner stays one until the state is `STATE_IDLE`
(`HasOwner.run`); so the state has an owner in every run in which `STATE_CANCEL` is stored only
while there is one (`owned`). `fingerprint_cancel` and `vcs_timeout` test the state in one step
and store `STATE_CANCEL` in another; a store that comes too late leaves the state without an
owner at once (`not_owned_of_late_cancel`, `late_cancel_orphan`).
-/

set_option autoImplicit false

namespace KlteCommon.Analysis

open KlteCommon.Computation KlteCommon.Fingerprint

/-! ## The events -/

/-- A step that stores `STATE_IDLE`. -/
def storesIdle : HalEvent → Prop
  | .done (.setTzState .stateIdle) _ => True
  | _ => False

/-- Whether a created thread is one of the two workers. -/
def Worker.serves : Worker → Bool
  | .vcsAuthenticate | .vcsEnroll => true
  | .vcsTimeout => false

/-- A step that creates a worker. -/
def createsWorker : HalEvent → Prop
  | .op (.pthreadCreate w) (.ok _) => Worker.serves w = true
  | _ => False

/-- Whether a command of `vcs_init` lets it return 0: it looks at `resp->result` for
`vendorEnterAuthSession` and at the transport's value for the others. -/
def cmdSucceeds (req : Request) (r : Reply) : Bool :=
  if req.vendorCmd = .vendorEnterAuthSession then r.result == 0 else r.ret == 0

/-- Whether a step of a starter lets `vcs_init` and `pthread_create` succeed. -/
def startSucceeds : HalEvent → Bool
  | .op .qseecomStartApp r => r == 0
  | .op (.qseecomSetBandwidth _) r => r == 0
  | .op (.qseecomSendCmd req) r => cmdSucceeds req r
  | .op (.pthreadCreate _) (.error _) => false
  | _ => true

/-! ## The protocol -/

/-- What a thread has done: stored `STATE_IDLE`, set the state and not created a worker yet. -/
structure Duty where
  stored : Bool
  owes : Bool

/-- What an operation makes of a duty; the state is written by `set_tz_state` only. -/
def dutyAfter (x : Duty) : (o : Op) → Resp o → Option Duty
  | .store .tzState _, _ | .clearTz, _ => none
  | .pthreadCreate w, .ok _ => some { x with owes := x.owes && !Worker.serves w }
  | _, _ => some x

/-- What a call makes of a duty; `b` says whether the worker was found cancelled in it. -/
def dutyAfterCall (x : Duty) (b : Bool) : (c : Call) → Ret c → Duty
  | .setTzState .stateIdle, _ => { x with stored := true }
  | .setTzState .stateScan, _ | .setTzState .stateEnroll, _ => { x with owes := true }
  | .vcsUninit, _ | .vcsAuthenticate, _ | .vcsEnroll, _ => { x with stored := true }
  | .vcsCheckState, _ | .vcsStartCaptureWait, _ | .vcsStartCaptureRead, _ =>
    { x with stored := x.stored || b }
  | .vcsStartCapture _, _ | .vcsAuthenticateLoop, _ => { x with stored := x.stored || b }
  | .vcsEnrollLoop _ _, r => { x with stored := x.stored || b || r == .returned }
  | _, _ => x

/-- Whether a call is one step that the thread may take: only a starter sets a busy state. -/
def mayStep (starts : Bool) : Call → Bool
  | .getTzState | .setTzState .stateIdle | .setTzState .stateCancel => true
  | .setTzState .stateScan | .setTzState .stateEnroll => starts
  | _ => false

/-- Which calls the threads of the system make, by whether the thread is a starter; a starter
that has set the state makes no other start. -/
def mayCall (starts : Bool) (x : Duty) : Call → Prop
  | .getTzState | .setTzState .stateIdle | .setTzState .stateCancel => True
  | .setTzState .stateScan | .setTzState .stateEnroll => starts = true
  | .sensorInit | .sensorUninit => True
  | .vcsInit | .vcsResume => starts = true
  | .vcsStartAuthenticate | .vcsStartEnroll _ => starts = true ∧ x.owes = false
  | .fingerprintAuthenticate _ | .fingerprintEnroll _ _ => starts = true ∧ x.owes = false
  | .vcsUpdateCalData | .vcsCheckState | .vcsStartCapture _ | .vcsStartCaptureWait => starts = false
  | .vcsStartCaptureRead | .vcsAuthenticate | .vcsAuthenticateLoop => starts = false
  | .vcsEnroll | .vcsEnrollLoop _ _ | .vcsUninit | .vcsUpdateAuthToken => starts = false
  | .vcsTimeout | .vcsTimeoutLoop | .fingerprintCancel | .fingerprintCancelLoop => starts = false
  | .vcsGetEnrolledFingerNum | .sensorProcessSignal | .sensorCaptureStart => starts = false
  | .dbWriteToDb remove _ => starts = false ∧ remove = false
  | .sendErrorNotice _ | .sendAcquiredNotice _ | .sendEnrollNotice _ _ => True
  | .sendAuthenticatedNotice _ => starts = false
  | _ => False

/-- What a starter relies on a call to return. -/
def returns : (c : Call) → Ret c → Prop
  | .vcsInit, r | .vcsResume, r => r = 0
  | _, _ => True

/-- The protocol of the duties, for starters and for the other threads. -/
def ownerProtocol (starts : Bool) : Protocol Resp Ret Duty where
  assume _ e := starts = true → startSucceeds e = true
  next x
    | .op o r => dutyAfter x o r
    | .enter _ => some x
    | .done c r => if mayStep starts c then some (dutyAfterCall x false c r) else none
  pre c x := mayCall starts x c
  post c x r y := returns c r ∧ ∃ b, y = dutyAfterCall x b c r

section

variable (st : Bool) (x y : Duty) (c : Call) (r : Ret c) (o : Op) (a : Resp o)

/-- What is assumed of an operation. -/
@[simp] theorem ownerProtocol_assume_op :
    (ownerProtocol st).assume x (.op o a) ↔ (st = true → startSucceeds (.op o a) = true) := Iff.rfl

/-- The duty behind an operation. -/
@[simp] theorem ownerProtocol_next_op :
    (ownerProtocol st).next x (.op o a) = dutyAfter x o a := rfl

/-- Who may make a call. -/
@[simp] theorem ownerProtocol_pre : (ownerProtocol st).pre c x ↔ mayCall st x c := Iff.rfl

/-- The duty behind a call. -/
@[simp] theorem ownerProtocol_post :
    (ownerProtocol st).post c x r y ↔ returns c r ∧ ∃ b, y = dutyAfterCall x b c r := Iff.rfl

/-- A call by its contract. -/
@[simp ↓] theorem ownerProtocol_callRule (Q : Ret c → Duty → Prop) :
    (ownerProtocol st).callRule stateGrain c Q x ↔
      mayCall st x c ∧ ∀ r, returns c r → ∀ b, Q r (dutyAfterCall x b c r) := by
  cases hc : stateGrain c with
  | false =>
    rw [Protocol.callRule_entered hc (fun _ => rfl) rfl]
    refine and_congr_right fun _ => forall_congr' fun r => ⟨fun h hr b => h _ ⟨hr, b, rfl⟩, ?_⟩
    rintro h y ⟨hr, b, rfl⟩
    exact h hr b
  | true =>
    obtain rfl | ⟨state, rfl⟩ := stateGrain_cases hc
    · rw [Protocol.callRule_atomic (y := fun _ => x) hc (fun _ _ => rfl) fun _ => rfl]
      simp [mayCall, returns, dutyAfterCall]
    · cases hm : mayStep st (.setTzState state) with
      | false =>
        cases state <;> cases hm <;>
          simp [Protocol.callRule, ownerProtocol, mayStep, mayCall, stateGrain, startSucceeds]
      | true =>
        rw [Protocol.callRule_atomic (y := dutyAfterCall x false _) hc (fun _ _ => rfl) fun r =>
          if_pos hm]
        cases state <;> simp_all [mayCall, mayStep, returns, dutyAfterCall]

end

/-! ## Every body keeps to its contract -/

section bodies

attribute [local simp ↓] load store op call send ionSbuffer sameIonSbuffer

attribute [local simp] dutyAfter dutyAfterCall mayCall returns Worker.serves Bool.exists_bool
  startSucceeds cmdSucceeds

variable {st : Bool} {α : Type} {p : Code α} {Q : α → Duty → Prop} {x : Duty}

/-- Code that only reads the slots changes no duty. -/
theorem duty_of_readsSlot (hp : p.Within Op.readsSlot fun _ => False) (hQ : ∀ a, Q a x) :
    (ownerProtocol st).Follows stateGrain p Q x := by
  refine .frame hp (fun o ho r => ?_) hQ
  cases o with
  | load => rfl
  | _ => cases ho

variable {Qi : ℤ → Duty → Prop}

/-- Nor does building the match request. -/
@[simp ↓] theorem duty_matchTemplates {Q : List (ℕ × List UInt8) → Duty → Prop} (n : ℕ)
    (idx : ℤ) (len : ℕ) (hQ : ∀ a, Q a x) :
    (ownerProtocol st).Follows stateGrain (matchTemplates n idx len) Q x :=
  duty_of_readsSlot (matchTemplates_within ..) hQ

/-- Nor does the search for the matched finger. -/
@[simp ↓] theorem duty_findMatched (fakeFid : CInt) (fingerindex : ℤ) (n : ℕ) (idx : ℤ)
    (len : CInt) (hQ : ∀ a, Qi a x) :
    (ownerProtocol st).Follows stateGrain (findMatched fakeFid fingerindex n idx len) Qi x :=
  duty_of_readsSlot (findMatched_within ..) hQ

/-- Nor does the search for a free slot. -/
@[simp ↓] theorem duty_firstFreeSlot (n : ℕ) (idx : ℤ) (hQ : ∀ a, Qi a x) :
    (ownerProtocol st).Follows stateGrain (firstFreeSlot n idx) Qi x :=
  duty_of_readsSlot (firstFreeSlot_within ..) hQ

/-- The last commands of `vcs_resume` succeed for a starter. -/
theorem duty_deviceResume {Q : CInt → Duty → Prop} (hQ : Q 0 x) :
    (ownerProtocol true).Follows stateGrain deviceResume Q x := by
  simp [deviceResume]
  intro r hr
  refine ⟨fun _ => hr.symm ▸ hQ, fun _ _ _ r' hr' => ?_⟩
  exact ⟨fun _ => hr'.symm ▸ hQ, fun _ => hr'.symm ▸ hQ⟩

/-- Every body keeps to the contracts. -/
theorem ownerProtocol_valid (st : Bool) : (ownerProtocol st).Valid stateGrain body := by
  intro c hc x hx
  obtain ⟨stored, owes⟩ := x
  cases c
  all_goals simp at hx
  case getTzState | setTzState => cases hc
  case vcsUpdateCalData => simp [body, vcsUpdateCalData, hx]
  case vcsCheckState => simp [body, vcsCheckState, hx]
  case vcsStartCapture => simp [body, vcsStartCapture, hx]
  case vcsStartCaptureWait => simp [body, vcsStartCaptureWait, hx]
  case vcsStartCaptureRead => simp [body, vcsStartCaptureRead, hx]
  case vcsAuthenticate => simp [body, vcsAuthenticate, hx]
  case vcsAuthenticateLoop => simp [body, vcsAuthenticateLoop, hx]
  case vcsEnroll => simp [body, vcsEnroll, vcsEnrollCommit, payloadBind, enrollmentPasswordSet, hx]
  case vcsEnrollLoop => simp [body, vcsEnrollLoop, hx]
  case vcsTimeout => simp [body, vcsTimeout, hx]
  case vcsTimeoutLoop => simp [body, vcsTimeoutLoop, hx]
  case vcsStartAuthenticate =>
    simp [body, vcsStartAuthenticate, awaitIdle, hx]
    rintro _ _ _ _ (_ | _) <;> simp
  case vcsStartEnroll =>
    simp [body, vcsStartEnroll, hx]
    rintro (_ | _)
    · simp
    · simp
      rintro - (_ | _) <;> simp
  case vcsGetEnrolledFingerNum =>
    exact duty_of_readsSlot (countFingers_within ..) fun num => by simp
  case vcsUpdateAuthToken => simp [body, vcsUpdateAuthToken, getAuthToken, hx]
  case vcsResume =>
    subst hx
    simp [body, vcsResume]
    intro r hr
    refine ⟨fun _ => hr, fun _ => ⟨duty_deviceResume (by simp), fun _ r' hr' => ?_⟩⟩
    exact ⟨fun _ => hr', fun _ => duty_deviceResume (by simp)⟩
  case vcsUninit => simp [body, vcsUninit, hx]
  case vcsInit => simp [body, vcsInit, hx]
  case sensorUninit => simp [body, sensorUninit]
  case sensorInit => simp [body, sensorInit]
  case sensorProcessSignal => simp [body, sensorProcessSignal, hx]
  case sensorCaptureStart => simp [body, sensorCaptureStart, hx]
  case dbWriteToDb => simp [body, dbWriteToDb, hx]
  case sendErrorNotice => simp [body, sendErrorNotice]
  case sendAcquiredNotice => simp [body, sendAcquiredNotice]
  case sendEnrollNotice => simp [body, sendEnrollNotice]
  case sendAuthenticatedNotice => simp [body, sendAuthenticatedNotice, hx]
  case fingerprintAuthenticate => simp [body, fingerprintAuthenticate, hx]
  case fingerprintEnroll hat _ =>
    cases hat <;> simp [body, fingerprintEnroll, hx]
  case fingerprintCancel =>
    simp [body, fingerprintCancel, hx]
    rintro _ _ (_ | t) <;> simp
  case fingerprintCancelLoop => simp [body, fingerprintCancelLoop, hx]

end bodies

/-! ## Duties -/

/-- The calls from outside: authentication, enrollment, cancellation and the signal handler. -/
def sessionCalls : Call → Bool
  | .fingerprintAuthenticate _ | .fingerprintEnroll _ _ | .fingerprintCancel => true
  | .sensorProcessSignal => true
  | _ => false

/-- Whether a call starts a worker. -/
def starts : Call → Bool
  | .fingerprintAuthenticate _ | .fingerprintEnroll _ _ => true
  | _ => false

/-- Whether a call is one of the two workers. -/
def serves : Call → Bool
  | .vcsAuthenticate | .vcsEnroll => true
  | _ => false

/-- A thread starts without a duty; a worker ends when it has stored `STATE_IDLE`, a starter when
it has created what it has set the state for. -/
def ownerRoles : Roles Resp Ret Duty where
  protocol c := ownerProtocol (starts c)
  away := ⟨false, false⟩
  start _ := ⟨false, false⟩
  final c _ y := (serves c = true → y.stored = true) ∧ y.owes = false

/-- Every thread starts with its duty. -/
theorem ownerRoles_starts {c : Call} (hc : sessionCalls c = true ∨ ∃ w : Worker, c = w.call) :
    ownerRoles.Starts stateGrain c := by
  simp only [Roles.Starts, ownerRoles, Protocol.follows_call, ownerProtocol_callRule]
  obtain hc | ⟨w, rfl⟩ := hc
  · cases c <;> first | cases hc; done | simp [mayCall, starts, serves, dutyAfterCall]
  · cases w <;> simp [mayCall, starts, serves, dutyAfterCall, Worker.call]

/-- The calls that are steps are those of the grain. -/
theorem stateGrain_of_mayStep {st : Bool} {c : Call} (h : mayStep st c = true) :
    stateGrain c = true := by
  cases c <;> first | rfl | cases h

/-- An operation changes no duty but by creating the worker. -/
theorem dutyAfter_some {x y : Duty} {o : Op} {r : Resp o} (h : dutyAfter x o r = some y) :
    y.stored = x.stored ∧ (createsWorker (.op o r) ∨ y.owes = x.owes) := by
  unfold dutyAfter at h
  split at h
  · cases h
  · cases h
  · rename_i w _
    obtain rfl := by simpa using h
    cases hw : Worker.serves w <;> simp [createsWorker, hw]
  · obtain rfl := by simpa using h
    exact ⟨rfl, .inr rfl⟩

/-- What one event does to a duty: only storing `STATE_IDLE` counts as stored, and only creating
a worker pays what a starter owes. -/
theorem duty_next {st : Bool} {x y : Duty} {e : HalEvent}
    (h : (ownerProtocol st).next x e = some y) :
    (storesIdle e ∨ y.stored = x.stored) ∧ (createsWorker e ∨ (x.owes = true → y.owes = true)) := by
  cases e with
  | op o r =>
    obtain ⟨hstored, howes⟩ := dutyAfter_some h
    exact ⟨.inr hstored, howes.imp_right fun h => by simp [h]⟩
  | enter c =>
    obtain rfl : x = y := by simpa [ownerProtocol] using h
    exact ⟨.inr rfl, .inr id⟩
  | done c r =>
    cases hc : mayStep st c with
    | false => simp [ownerProtocol, hc] at h
    | true =>
      obtain rfl : dutyAfterCall x false c r = y := by simpa [ownerProtocol, hc] using h
      obtain rfl | ⟨state, rfl⟩ := stateGrain_cases (stateGrain_of_mayStep hc)
      · exact ⟨.inr rfl, .inr id⟩
      · cases state <;> simp [storesIdle, createsWorker, dutyAfterCall]

/-- A worker that has not stored `STATE_IDLE` is bound to. -/
theorem worker_will {α : Type} {p : Code α} {Q : α → Duty → Prop} {x : Duty}
    (hp : (ownerProtocol false).Follows stateGrain p Q x) (hQ : ∀ a y, Q a y → y.stored = true)
    (hx : x.stored = false) : Will hal stateGrain (fun _ => True) storesIdle p :=
  hp.will (D := fun x => x.stored = false) (ownerProtocol_valid false) (fun _ _ _ h => nomatch h)
    (fun _ _ _ hx hy => (duty_next hy).1.imp_right fun h => h.trans hx)
    (fun a y hy => by simp [hQ a y hy]) hx

/-- A starter that has set the state is bound to create a worker. -/
theorem starter_will {α : Type} {p : Code α} {Q : α → Duty → Prop} {x : Duty}
    (hp : (ownerProtocol true).Follows stateGrain p Q x) (hQ : ∀ a y, Q a y → y.owes = false)
    (hx : x.owes = true) : Will hal stateGrain (startSucceeds · = true) createsWorker p :=
  hp.will (D := fun x => x.owes = true) (ownerProtocol_valid true) (fun _ _ he _ => he)
    (fun _ _ _ hx hy => (duty_next hy).2.imp_right fun h => h hx)
    (fun a y hy => by simp [hQ a y hy]) hx

/-! ## Owners -/

/-- Thread `t` owes the `STATE_IDLE` the others wait for: it is a worker that is bound to store
it, or a starter that is bound to create a worker. -/
def Owns (s : Hal) (t : Tid) : Prop :=
  ∃ th, s.pool t = some th ∧
    (serves th.entry = true ∧ Will hal stateGrain (fun _ => True) storesIdle th.code ∨
      starts th.entry = true ∧ Will hal stateGrain (startSucceeds · = true) createsWorker th.code)

/-- Some thread owes the `STATE_IDLE`. -/
def HasOwner (s : Hal) : Prop := ∃ t, Owns s t

/-- A busy state has an owner. -/
def Owned (s : Hal) : Prop := s.mem.tz.state ≠ .stateIdle → HasOwner s

/-- What is assumed of a step, `vcs_init` and `pthread_create` succeed, and the condition:
`STATE_CANCEL` is stored only while the state is busy or has an owner. -/
def timely (s : Hal) (t : Tid) (e : HalEvent) : Prop :=
  (∀ c, s.entry t = some c → starts c = true → startSucceeds e = true) ∧
    (∀ r, e = .done (.setTzState .stateCancel) r → s.mem.tz.state ≠ .stateIdle ∨ HasOwner s)

/-- A worker starts as an owner. -/
theorem worker_start {c : Call} (hc : serves c = true) :
    Will hal stateGrain (fun _ => True) storesIdle (Thread.start c : Thread Resp Ret).code := by
  have hw : ∃ w : Worker, c = w.call := by
    cases c <;> first | cases hc; done | exact ⟨.vcsAuthenticate, rfl⟩ | exact ⟨.vcsEnroll, rfl⟩
  have hst : starts c = false := by cases c <;> first | rfl | cases hc
  have hp := ownerRoles_starts (.inr hw)
  simp only [Roles.Starts, ownerRoles, hst] at hp
  exact worker_will hp (fun a y hy => hy.1 hc) rfl

/-- Who creates the worker gives birth to a thread that serves. -/
theorem born_of_createsWorker {e : HalEvent} (he : createsWorker e) :
    ∃ u c, hal.born e = some (u, c) ∧ serves c = true := by
  cases e with
  | op o r =>
    unfold createsWorker at he
    split at he
    · rename_i w u heq
      cases heq
      exact ⟨u, w.call, rfl, by cases w <;> first | rfl | cases he⟩
    · cases he
  | _ => cases he

/-- What one event does to the state. -/
theorem state_of_runs {s s' : Hal} {t : Tid} {e : HalEvent} {x y : Duty} {st : Bool}
    (hr : s.Runs stateGrain t e s') (hy : (ownerProtocol st).next x e = some y) :
    s'.mem.tz.state = s.mem.tz.state ∨
      ∃ state r, e = .done (.setTzState state) r ∧ s'.mem.tz.state = state := by
  cases e with
  | op o r =>
    refine .inl ((effect_of_runs hr).state.trans ?_)
    have hy : dutyAfter x o r = some y := hy
    unfold stateAfter
    split
    · cases hy
    · cases hy
    · rfl
  | enter c => exact .inl (by rw [mem_of_enters hr])
  | done c r =>
    obtain ⟨th, p, m, -, hn, hacts, rfl⟩ := hr.moves
    cases hc : mayStep st c with
    | false => simp [ownerProtocol, hc] at hy
    | true =>
      obtain rfl | ⟨state, rfl⟩ := stateGrain_cases (stateGrain_of_mayStep hc)
      · obtain ⟨-, rfl⟩ := acts_getTzState hacts
        exact .inl rfl
      · obtain rfl := acts_setTzState hacts
        exact .inr ⟨state, r, rfl, rfl⟩

/-- A store of `STATE_IDLE`. -/
theorem state_of_storesIdle {s s' : Hal} {t : Tid} {e : HalEvent} (hr : s.Runs stateGrain t e s')
    (he : storesIdle e) : s'.mem.tz.state = .stateIdle := by
  unfold storesIdle at he
  split at he
  · obtain ⟨th, p, m, -, -, hacts, rfl⟩ := hr.moves
    rw [acts_setTzState hacts]
    rfl
  · cases he

/-- **One step.** An owner stays an owner, or passes on its duty to the worker it creates, unless
it stores `STATE_IDLE`. -/
theorem HasOwner.run {s s' : Hal} {t : Tid} {e : HalEvent} (h : HasOwner s)
    (hr : s.Runs stateGrain t e s') (hok : timely s t e) (he : ¬ storesIdle e) : HasOwner s' := by
  obtain ⟨u, th, hth, hu⟩ := h
  by_cases hut : u = t
  · subst hut
    obtain ⟨p, hn, hp⟩ := hr.code hth
    obtain ⟨hw, hwill⟩ | ⟨hst, hwill⟩ := hu
    · obtain he' | hwill := hwill.next hn trivial
      · exact absurd he' he
      · exact ⟨u, _, hp, .inl ⟨hw, hwill⟩⟩
    · have hsucc : startSucceeds e = true := hok.1 th.entry (by rw [State.entry, hth]; rfl) hst
      obtain hcreates | hwill := hwill.next hn hsucc
      · obtain ⟨v, c, hb, hc⟩ := born_of_createsWorker hcreates
        exact ⟨v, _, hr.pool_born hb, .inl ⟨hc, worker_start hc⟩⟩
      · exact ⟨u, _, hp, .inr ⟨hst, hwill⟩⟩
  · exact ⟨u, th, hr.pool_of_ne hut hth, hu⟩

/-- An arrival leaves the owner. -/
theorem Owned.arrive {s : Hal} {t : Tid} {c : Call} (h : Owned s) (ht : s.pool t = none) :
    Owned (s.add t c) := by
  intro hbusy
  obtain ⟨u, th, hth, hu⟩ := h hbusy
  have hut : u ≠ t := by
    rintro rfl
    simp [ht] at hth
  exact ⟨u, th, by rwa [State.pool_add, if_neg hut], hu⟩

/-- **One step.** The state goes on having an owner while it is busy. -/
theorem Owned.run {s s' : Hal} {φ : Tid → Duty} {t : Tid} {th : Thread Resp Ret} {e : HalEvent}
    {y : Duty} (h : Owned s) (hok : timely s t e) (hth : s.pool t = some th)
    (hr : s.Runs stateGrain t e s')
    (hy : (ownerProtocol (starts th.entry)).next (φ t) e = some y)
    (hs' : Staged ownerRoles stateGrain s'.pool (stagesAfter ownerRoles hal φ t e y)) :
    Owned s' := by
  intro hbusy
  have hidle : ¬ storesIdle e := fun he => hbusy (state_of_storesIdle hr he)
  obtain hstate | ⟨state, r, rfl, hstate⟩ := state_of_runs hr hy
  · exact (h (hstate ▸ hbusy)).run hr hok hidle
  · cases state with
    | stateIdle => exact absurd trivial hidle
    | stateCancel => exact ((hok.2 r rfl).elim h id).run hr hok hidle
    | _ =>
      -- a starter has set the state and owes the worker
      cases hst : starts th.entry with
      | false => simp [ownerProtocol, hst, mayStep] at hy
      | true =>
        obtain ⟨p, -, hp⟩ := hr.code hth
        have hfollows := hs'.follows t _ hp
        simp only [ownerRoles, hst] at hfollows
        refine ⟨t, _, hp, .inr ⟨hst, starter_will hfollows (fun a y hy => hy.2) ?_⟩⟩
        obtain rfl : dutyAfterCall (φ t) false _ r = y := by
          simpa [ownerProtocol, hst, mayStep] using hy
        simp [stagesAfter, Machine.born, dutyAfterCall]

/-- **A busy state has an owner.** -/
theorem owned {s₀ s : Hal} (hpool : ∀ t, s₀.pool t = none) (hidle : s₀.mem.tz.state = .stateIdle)
    (h : s₀.Reaches stateGrain sessionCalls timely s) : Owned s := by
  obtain ⟨φ, -, hI⟩ : ∃ φ, Staged ownerRoles stateGrain s.pool φ ∧ Owned s := by
    refine State.Reaches.staged (I := fun s _ => Owned s) (fun _ => ⟨false, false⟩)
      (fun _ => ownerProtocol_valid _)
      (fun _ _ _ _ _ _ _ hb => ownerRoles_starts (.inr (born_worker hb)))
      (fun c hc => ownerRoles_starts (.inl hc))
      ⟨fun t th ht => by simp [hpool t] at ht, fun _ _ => rfl⟩ (fun h => absurd hidle h)
      (fun s φ t c _ hI _ ht => hI.arrive ht) ?_
      (fun s φ t th e s' y _ hI hok hth hr hy hs' => hI.run hok hth hr hy hs') h
    intro s φ t th e s' _ _ hok hth _ hst
    exact hok.1 th.entry (by rw [State.entry, hth]; rfl) hst
  exact hI

/-- The condition is exact: a `STATE_CANCEL` that is stored while the state is `STATE_IDLE` and
nobody owns it has no owner right away. -/
theorem not_owned_of_late_cancel {s s' : Hal} {t : Tid} {r : Unit}
    (hr : s.Runs stateGrain t (.done (.setTzState .stateCancel) r) s') (ho : ¬ HasOwner s) :
    ¬ Owned s' := by
  intro h
  have hstate : s'.mem.tz.state = .stateCancel := by
    obtain ⟨th, p, m, -, -, hacts, rfl⟩ := hr.moves
    rw [acts_setTzState hacts]
    rfl
  obtain ⟨u, th', hth', hu⟩ := h (by simp [hstate])
  refine ho ⟨u, ?_⟩
  by_cases hut : u = t
  · subst hut
    obtain ⟨th, -, -, hth, -⟩ := hr.moves
    obtain ⟨p, hn, hp⟩ := hr.code hth
    obtain rfl : th' = ⟨th.entry, p⟩ := by simpa [hth'] using hp
    obtain ⟨entry, code⟩ := th
    have hn : hal.Next stateGrain code _ p := hn
    -- the store is the only step the code can take
    generalize he : (Event.done (.setTzState .stateCancel) r : HalEvent) = e at hn
    cases hn with
    | done c k r' hc =>
      cases he
      have hone : ∀ e q, hal.Next stateGrain (.call (.setTzState .stateCancel) k) e q → q = k r := by
        rintro e q (_ | ⟨_, _, hne⟩ | _)
        · cases hne
        · rfl
      exact ⟨_, hth, hu.imp (fun h => ⟨h.1, h.2.of_next hone (by simp [Prog.finished])⟩)
        fun h => ⟨h.1, h.2.of_next hone (by simp [Prog.finished])⟩⟩
    | _ => cases he
  · exact ⟨th', by rwa [hr.pool_of_not_born rfl hut] at hth', hu⟩

/-! ## Runs -/

/-- The assumption on a run alone: `vcs_init` and `pthread_create` succeed. -/
def startsSucceed (s : Hal) (t : Tid) (e : HalEvent) : Prop :=
  ∀ c, s.entry t = some c → starts c = true → startSucceeds e = true

/-- `startsSucceed`, executably. -/
def startsSucceedB (s : Hal) (t : Tid) (e : HalEvent) : Bool :=
  match s.entry t with
  | some c => !starts c || startSucceeds e
  | none => true

/-- `startsSucceed` from its executable form. -/
theorem startsSucceed_of {s : Hal} {t : Tid} {e : HalEvent} (h : startsSucceedB s t e = true) :
    startsSucceed s t e := by
  intro c hc hst
  simpa [startsSucceedB, hc, hst] using h

/-- `fingerprint_authenticate(7)` of thread 1, up to its end; thread 2 is the worker. -/
def startScan : List (Label hal) :=
  .arrive 1 (.fingerprintAuthenticate 7) :: ticks 1 4 ++ accesses 1 6 ++ ticks 1 15 ++
    answer 1 (.good 0) ++ ticks 1 1 ++ answer 1 (.good 0) ++ ticks 1 2 ++ answer 1 (.good 0) ++
    ticks 1 4 ++ touch 1 2 ++ ticks 1 1

/-- The worker up to its end when its first capture fails. -/
def captureFails : List (Label hal) :=
  ticks 2 2 ++ answer 2 (.good 0) ++ ticks 2 1 ++ accesses 2 1 ++ ticks 2 2 ++ answer 2 .lost ++
    ticks 2 10 ++ answer 2 (.good 0) ++ ticks 2 3 ++ accesses 2 2

/-- A step that is timely because the state is busy, executably. -/
def timelyB (s : Hal) (t : Tid) (e : HalEvent) : Bool :=
  startsSucceedB s t e &&
    match e with
    | .done (.setTzState .stateCancel) _ => decide (s.mem.tz.state ≠ .stateIdle)
    | _ => true

/-- `timely` from its executable form. -/
theorem timely_of {s : Hal} {t : Tid} {e : HalEvent} (h : timelyB s t e = true) : timely s t e := by
  obtain ⟨hst, hbusy⟩ := Bool.and_eq_true_iff.mp h
  refine ⟨startsSucceed_of hst, ?_⟩
  rintro r rfl
  exact .inl (by simpa using hbusy)

/-- A cancellation that finds the worker at work: `STATE_CANCEL` has an owner. -/
theorem owned_cancel :
    ∃ s, (Hal.idle .zero).Reaches stateGrain sessionCalls timely s ∧
      s.mem.tz.state = .stateCancel ∧ HasOwner s := by
  obtain ⟨s, hs, hstate⟩ : ∃ s, (Hal.idle .zero).exec stateGrain sessionCalls timelyB
      (startScan ++ .arrive 3 .fingerprintCancel :: ticks 3 2 ++ accesses 3 3) = some s ∧
      s.mem.tz.state = .stateCancel := ⟨_, rfl, rfl⟩
  have hr : (Hal.idle .zero).Reaches stateGrain sessionCalls timely s :=
    State.Reaches.refl.exec (fun _ _ _ => timely_of) hs
  exact ⟨s, hr, hstate, owned (fun _ => rfl) rfl hr (by simp [hstate])⟩

/-- `fingerprint_cancel` reads `STATE_SCAN` twice, the worker ends, `STATE_CANCEL` is stored: the
cancelling thread waits for a worker that does not exist. -/
theorem late_cancel_orphan :
    ∃ s, (Hal.idle .zero).Reaches stateGrain sessionCalls startsSucceed s ∧ ¬ Owned s := by
  obtain ⟨s, hs, hstate, hnone⟩ : ∃ s, (Hal.idle .zero).exec stateGrain sessionCalls startsSucceedB
      (startScan ++ .arrive 3 .fingerprintCancel :: ticks 3 2 ++ accesses 3 2 ++ captureFails ++
        accesses 3 1) = some s ∧ s.mem.tz.state = .stateCancel ∧ ¬ HasOwner s := by
    refine ⟨_, rfl, rfl, ?_⟩
    rintro ⟨t, th, hth, ho⟩
    rcases t with _ | _ | _ | _ | t
    · cases hth
    · cases hth
      exact ho.elim (fun h => Will.not_ret h.2) fun h => Will.not_ret h.2
    · cases hth
      exact ho.elim (fun h => Will.not_ret h.2) fun h => Will.not_ret h.2
    · cases hth
      exact ho.elim (fun h => nomatch h.1) fun h => nomatch h.1
    · cases hth
  exact ⟨s, State.Reaches.refl.exec (fun _ _ _ => startsSucceed_of) hs,
    fun h => hnone (h (by simp [hstate]))⟩

end KlteCommon.Analysis
