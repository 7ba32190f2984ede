import KlteCommon.Computation.Alone
import KlteCommon.Fingerprint.Device
import KlteCommon.Fingerprint.TrustZone

/-!
# The fingerprint HAL as a machine

The bodies of the procedures, put together with the meaning of the operations. Three grains of
interleaving are used: every operation by itself; `get_tz_state` and `set_tz_state` as one step
each; and, for whole sessions, also the functions that bring the sensor and the app up and down.
-/

set_option autoImplicit false

namespace KlteCommon.Fingerprint

open KlteCommon.Computation

/-- The body of a procedure. -/
def body : (c : Call) → Code (Ret c)
  | .getTzState => getTzState
  | .setTzState state => setTzState state
  | .vcsUpdateCalData => vcsUpdateCalData
  | .vcsCheckState => vcsCheckState
  | .vcsStartCapture t => vcsStartCapture t
  | .vcsStartCaptureWait => vcsStartCaptureWait
  | .vcsStartCaptureRead => vcsStartCaptureRead
  | .vcsAuthenticate => vcsAuthenticate
  | .vcsAuthenticateLoop => vcsAuthenticateLoop
  | .vcsEnroll => vcsEnroll
  | .vcsEnrollLoop idx count => vcsEnrollLoop idx count
  | .vcsTimeout => vcsTimeout
  | .vcsTimeoutLoop => vcsTimeoutLoop
  | .vcsStartAuthenticate => vcsStartAuthenticate
  | .vcsStartEnroll timeout => vcsStartEnroll timeout
  | .vcsGetEnrolledFingerNum => vcsGetEnrolledFingerNum
  | .vcsUpdateAuthToken => vcsUpdateAuthToken
  | .vcsStartAuthSession => vcsStartAuthSession
  | .vcsStopAuthSession => vcsStopAuthSession
  | .vcsResume => vcsResume
  | .vcsUninit => vcsUninit
  | .vcsInit => vcsInit
  | .sensorUninit => sensorUninit
  | .sensorInit => sensorInit
  | .sensorProcessSignal => sensorProcessSignal
  | .sensorRegister => sensorRegister
  | .sensorCaptureStart => sensorCaptureStart
  | .dbCheckAndCreateTable => dbCheckAndCreateTable
  | .dbConvertOldDb => dbConvertOldDb
  | .dbReadToTz => dbReadToTz
  | .dbWriteToDb remove fid => dbWriteToDb remove fid
  | .dbInit => dbInit
  | .dbUninit => dbUninit
  | .sendErrorNotice errorInfo => sendErrorNotice errorInfo
  | .sendAcquiredNotice acquiredRet => sendAcquiredNotice acquiredRet
  | .sendEnrollNotice fid remaining => sendEnrollNotice fid remaining
  | .sendAuthenticatedNotice fid => sendAuthenticatedNotice fid
  | .sendRemoveNotice fid => sendRemoveNotice fid
  | .fingerprintGetAuthId => fingerprintGetAuthId
  | .fingerprintSetActiveGroup gid => fingerprintSetActiveGroup gid
  | .fingerprintAuthenticate operationId => fingerprintAuthenticate operationId
  | .fingerprintEnroll hat timeoutSec => fingerprintEnroll hat timeoutSec
  | .fingerprintPreEnroll => fingerprintPreEnroll
  | .fingerprintPostEnroll => fingerprintPostEnroll
  | .fingerprintCancel => fingerprintCancel
  | .fingerprintCancelLoop => fingerprintCancelLoop
  | .fingerprintEnumerate => fingerprintEnumerate
  | .fingerprintRemove fid => fingerprintRemove fid
  | .setNotifyCallback notify => setNotifyCallback notify
  | .fingerprintClose => fingerprintClose
  | .fingerprintOpen => fingerprintOpen

/-- The HAL. -/
@[reducible] def hal : Machine Resp Ret where
  Mem := Mem
  Choice := Choice
  body := body
  act := act
  spawns := spawns

/-- The state of a running HAL. -/
abbrev Hal := State hal

/-- A HAL with memory `m` that no thread runs in yet. -/
def Hal.idle (m : Mem) : Hal := ⟨m, fun _ => none, []⟩

/-- An event of a HAL thread. -/
abbrev HalEvent := Event Resp Ret

/-- Thread `t` has dereferenced a NULL handle. -/
def Faulted (s : Hal) (t : Tid) : Prop :=
  ∃ c, ∃ k : Unit → Code (Ret c), s.pool t = some ⟨c, .op .fault k⟩

/-- Such a thread takes no step. -/
theorem not_runs_of_faulted {atomic : Call → Bool} {s s' : Hal} {t : Tid} {e : HalEvent}
    (h : Faulted s t) : ¬ s.Runs atomic t e s' := by
  rintro ⟨⟨th, p, m, hth, hnext, hacts, -⟩, -⟩
  obtain ⟨c, k, hpool⟩ := h
  obtain rfl := Option.some.inj (hpool.symm.trans hth)
  cases hnext
  obtain ⟨ch, hact⟩ := hacts
  cases hact

/-- The memory of a process that has started the app, with nothing on disk. -/
def Mem.started : Mem :=
  { Mem.zero with tz := { TrustZone.zero with init := true, qhandle := true } }

/-! ## Schedules -/

/-- `n` steps of thread `t` that nothing is chosen for. -/
def ticks (t : Tid) (n : ℕ) : List (Label hal) := List.replicate n (.run t [.tick])

/-- `n` calls of `get_tz_state` or `set_tz_state`, as one step each. -/
def accesses (t : Tid) (n : ℕ) : List (Label hal) :=
  List.replicate n (.run t [.tick, .tick, .tick])

/-- A command of thread `t` that is answered. -/
def answer (t : Tid) (r : Reply) : List (Label hal) := [.run t [.reply r]]

/-- Thread `t` creates thread `u`, or wakes it. -/
def touch (t u : Tid) : List (Label hal) := [.run t [.thread u]]

/-- A reply that says that all is well, with `x` in every word of `data`. -/
def Reply.good (x : CInt) : Reply := ⟨0, 0, fun _ => x⟩

/-- The transport failed. -/
def Reply.lost : Reply := ⟨-1, 0, fun _ => 0⟩

/-- The finest grain: no call is atomic. -/
def fine : Call → Bool := fun _ => false

/-- The grain at which each `get_tz_state` and each `set_tz_state` is one step. -/
def stateGrain : Call → Bool
  | .getTzState | .setTzState _ => true
  | _ => false

/-- The calls that are one step at this grain. -/
theorem stateGrain_cases {c : Call} (h : stateGrain c = true) :
    c = .getTzState ∨ ∃ state, c = .setTzState state := by
  cases c <;> first | cases h; done | exact .inl rfl | exact .inr ⟨_, rfl⟩

/-- The grain at which, besides those, each `sensor_init`, `sensor_uninit`, `vcs_init` and
`vcs_uninit` is one step. -/
def sessionGrain : Call → Bool
  | .getTzState | .setTzState _ => true
  | .sensorInit | .sensorUninit | .vcsInit | .vcsUninit => true
  | _ => false

end KlteCommon.Fingerprint
