import KlteCommon.Computation.Lone
import KlteCommon.Fingerprint.Effects

/-!
# The threads beside a worker

While a worker runs, the signal handler, `fingerprint_cancel` and `vcs_timeout` may run too. What
they do is little: they read, they take mutexes and signal, they write `sensor.signal` and the
handle of the timer, and, unless it is the signal handler alone, they store `STATE_CANCEL` and
report an error. `aside_of_runs` says what is left alone.
-/

set_option autoImplicit false

namespace KlteCommon.Fingerprint

open KlteCommon.Computation

/-- What the threads beside a worker do; `cancels` says whether there are others than the signal
handler. -/
@[reducible] def asideOp (cancels : Bool) : Op → Bool
  | .load _ | .lock _ | .unlock _ | .condBlock _ _ | .condWake _ _ | .condTimedWake _ _ => true
  | .condSignal _ | .pthreadJoin _ | .usleep | .ioctl _ => true
  | .store .timeoutThread _ | .store .sensorSignal _ => true
  | .store .tzState x => cancels && x == .stateCancel
  | .notify (.error _) => cancels
  | _ => false

/-- The procedures of these threads. -/
@[reducible] def asideCall (cancels : Bool) : Call → Bool
  | .sensorProcessSignal | .getTzState => true
  | .setTzState x => cancels && x == .stateCancel
  | .fingerprintCancel | .fingerprintCancelLoop | .vcsTimeout | .vcsTimeoutLoop => cancels
  | .sendErrorNotice _ => cancels
  | _ => false

/-- What stands aside does so in every step. -/
theorem asideCall_within {cancels : Bool} {c : Call} (hc : asideCall cancels c = true) :
    (body c).Within (asideOp cancels · = true) (asideCall cancels · = true) := by
  cases c <;> first | cases hc; done | skip
  case fingerprintCancel =>
    obtain rfl : cancels = true := hc
    simp [Prog.Within, body, fingerprintCancel, load, op, call, store]
    rintro _ _ (_ | _) <;> simp
  case setTzState state => simpa [Prog.Within, body, setTzState, op, store] using hc
  all_goals
    simp [Prog.Within, body, fingerprintCancelLoop, vcsTimeout, vcsTimeoutLoop,
      sensorProcessSignal, getTzState, sendErrorNotice, load, op, call, store] at hc ⊢
  all_goals simp [hc]

/-- The threads beside a worker create none. -/
theorem aside_not_born {cancels : Bool} {B : Call → Bool} {e : HalEvent}
    (h : e.within (asideOp cancels) B = true) : hal.born e = none := by
  cases e with
  | op o r => cases o <;> first | rfl | cases h
  | enter c | done c r => rfl

/-- What the threads beside a worker leave alone: all but the mutexes, the waiters, the signal,
the timer and the state, which may become `STATE_CANCEL`. -/
structure Aside (cancels : Bool) (m m' : Mem) : Prop where
  state : m'.tz.state = m.tz.state ∨ cancels = true ∧ m'.tz.state = .stateCancel
  init : m'.tz.init = m.tz.init
  sensorInit : m'.sensor.init = m.sensor.init
  finger : m'.tz.finger = m.tz.finger
  db : m'.db = m.db
  vdev : m'.vdev = m.vdev

/-- Such a step leaves the memory as a bystander does. -/
theorem aside_of_runs {cancels : Bool} {B : Call → Bool} {s s' : Hal} {t : Tid} {e : HalEvent}
    (hr : s.Runs fine t e s') (he : e.within (asideOp cancels) B = true) :
    Aside cancels s.mem s'.mem := by
  cases e with
  | op o r =>
    have heff := effect_of_runs hr
    cases o with
    | store v x =>
      cases v with
      | tzState =>
        simp only [Event.within, asideOp, Bool.and_eq_true, beq_iff_eq] at he
        obtain ⟨hcancels, rfl⟩ := he
        exact ⟨.inr ⟨hcancels, heff.state⟩, heff.init, heff.sensorInit, heff.finger, heff.db,
          heff.vdev⟩
      | timeoutThread | sensorSignal =>
        exact ⟨.inl heff.state, heff.init, heff.sensorInit, heff.finger, heff.db, heff.vdev⟩
      | _ => cases he
    | _ =>
      first
        | cases he; done
        | exact ⟨.inl heff.state, heff.init, heff.sensorInit, heff.finger, heff.db, heff.vdev⟩
  | enter c =>
    rw [mem_of_enters hr]
    exact ⟨.inl rfl, rfl, rfl, rfl, rfl, rfl⟩
  | done c r => exact (not_done_of_fine hr).elim

/-- They change the state only by storing `STATE_CANCEL`. -/
theorem state_of_aside {cancels : Bool} {B : Call → Bool} {s s' : Hal} {t : Tid} {e : HalEvent}
    (hr : s.Runs fine t e s') (he : e.within (asideOp cancels) B = true)
    (hne : ∀ r, e ≠ .op (.store .tzState .stateCancel) r) :
    s'.mem.tz.state = s.mem.tz.state := by
  cases e with
  | op o r =>
    rw [(effect_of_runs hr).state]
    unfold stateAfter
    split
    · simp only [Event.within, asideOp, Bool.and_eq_true, beq_iff_eq] at he
      exact absurd (by rw [he.2]) (hne r)
    · cases he
    · rfl
  | enter c => rw [mem_of_enters hr]
  | done c r => exact (not_done_of_fine hr).elim

end KlteCommon.Fingerprint
