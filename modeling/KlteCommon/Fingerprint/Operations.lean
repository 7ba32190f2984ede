import KlteCommon.Fingerprint.Types

/-!
# The operations of the fingerprint HAL

What one step of a HAL thread can be: a read or a write of one shared variable, an operation on a
mutex or a condition variable, a call of the kernel driver, of QSEECom, of sqlite or of the
framework's callback. `act` is their meaning on the shared memory. Everything outside the HAL
answers as the schedule chooses; a choice that the documented behaviour excludes is refused.

The procedures are named here (`Call`), since a thread is created by naming one.
-/

set_option autoImplicit false

namespace KlteCommon.Fingerprint

open KlteCommon.Computation

/-! ## Shared memory -/

/-- The mutexes `vdev->lock`, `tz.lock`, `sensor.lock` and `tz.timeout.lock`. -/
inductive Mutex
  | vdevLock
  | tzLock
  | sensorLock
  | timeoutLock
  deriving DecidableEq

/-- The condition variables `sensor.cond` and `tz.timeout.cond`. -/
inductive Cond
  | sensorCond
  | timeoutCond
  deriving DecidableEq

/-- Everything the threads share, the databases on disk included. A mutex is held by at most one
thread; `waiters` are the threads blocked on a condition variable that no signal has woken. -/
structure Mem where
  tz : TrustZone
  sensor : Sensor
  vdev : Device
  db : Database
  legacy : Option LegacyDb
  dbFile : Database → List UInt8
  locks : Mutex → Option Tid
  waiters : Cond → List Tid

/-- The memory of a process that has opened nothing, with nothing on disk. -/
def Mem.zero : Mem where
  tz := .zero
  sensor := ⟨false, false⟩
  vdev := .zero
  db := ⟨fun _ => none⟩
  legacy := none
  dbFile := fun _ => []
  locks := fun _ => none
  waiters := fun _ => []

/-- The shared variables the code reads and writes one at a time. -/
inductive Var
  | tzInit
  | tzState
  | authSessionOpend
  | authToken
  | authSessionToken
  | calibrateLen
  | calibrateData
  | finger (idx : ℤ)
  | fingerExist (idx : ℤ)
  | fingerData (idx : ℤ)
  | fingerPayload (idx : ℤ)
  | timeout
  | timeoutThread
  | sensorInit
  | sensorSignal
  | opId
  | challenge
  | userId
  | secureUserId
  | authenticatorId
  | activeGid
  | notify
  deriving DecidableEq

/-- The type of a shared variable. -/
@[reducible] def Var.Ty : Var → Type
  | .tzInit => Bool
  | .tzState => WorkerState
  | .authSessionOpend => Bool
  | .authToken => Bytes authTokenLength
  | .authSessionToken => Bytes authSessionTokenLength
  | .calibrateLen => CInt
  | .calibrateData => Bytes calibrateDataMaxLength
  | .finger _ => Finger
  | .fingerExist _ => Bool
  | .fingerData _ => Bytes fingerDataMaxLength
  | .fingerPayload _ => Bytes payloadMaxLength
  | .timeout => UInt32
  | .timeoutThread => Option Tid
  | .sensorInit => Bool
  | .sensorSignal => Bool
  | .opId => UInt64
  | .challenge => UInt64
  | .userId => UInt64
  | .secureUserId => UInt64
  | .authenticatorId => UInt64
  | .activeGid => UInt32
  | .notify => ℕ

instance (v : Var) : Nonempty v.Ty := by
  cases v <;> first | exact ⟨0⟩ | exact ⟨false⟩ | exact ⟨.stateIdle⟩ | exact ⟨none⟩ | exact ⟨.zero⟩

/-- Reading a shared variable. -/
def Mem.get (m : Mem) : (v : Var) → v.Ty
  | .tzInit => m.tz.init
  | .tzState => m.tz.state
  | .authSessionOpend => m.tz.authSessionOpend
  | .authToken => m.tz.authToken
  | .authSessionToken => m.tz.authSessionToken
  | .calibrateLen => m.tz.calibrateLen
  | .calibrateData => m.tz.calibrateData
  | .finger idx => m.tz.finger idx
  | .fingerExist idx => (m.tz.finger idx).exist
  | .fingerData idx => (m.tz.finger idx).data
  | .fingerPayload idx => (m.tz.finger idx).payload
  | .timeout => m.tz.timeout.timeout
  | .timeoutThread => m.tz.timeout.timeoutThread
  | .sensorInit => m.sensor.init
  | .sensorSignal => m.sensor.signal
  | .opId => m.vdev.opId
  | .challenge => m.vdev.challenge
  | .userId => m.vdev.userId
  | .secureUserId => m.vdev.secureUserId
  | .authenticatorId => m.vdev.authenticatorId
  | .activeGid => m.vdev.activeGid
  | .notify => m.vdev.notify

/-- Replacing slot `idx`. -/
def Mem.setFinger (m : Mem) (idx : ℤ) (f : Finger) : Mem :=
  { m with tz := { m.tz with finger := Function.update m.tz.finger idx f } }

/-- Writing a shared variable. -/
def Mem.set (m : Mem) : (v : Var) → v.Ty → Mem
  | .tzInit, x => { m with tz := { m.tz with init := x } }
  | .tzState, x => { m with tz := { m.tz with state := x } }
  | .authSessionOpend, x => { m with tz := { m.tz with authSessionOpend := x } }
  | .authToken, x => { m with tz := { m.tz with authToken := x } }
  | .authSessionToken, x => { m with tz := { m.tz with authSessionToken := x } }
  | .calibrateLen, x => { m with tz := { m.tz with calibrateLen := x } }
  | .calibrateData, x => { m with tz := { m.tz with calibrateData := x } }
  | .finger idx, x => m.setFinger idx x
  | .fingerExist idx, x => m.setFinger idx { m.tz.finger idx with exist := x }
  | .fingerData idx, x => m.setFinger idx { m.tz.finger idx with data := x }
  | .fingerPayload idx, x => m.setFinger idx { m.tz.finger idx with payload := x }
  | .timeout, x => { m with tz := { m.tz with timeout := { m.tz.timeout with timeout := x } } }
  | .timeoutThread, x =>
    { m with tz := { m.tz with timeout := { m.tz.timeout with timeoutThread := x } } }
  | .sensorInit, x => { m with sensor := { m.sensor with init := x } }
  | .sensorSignal, x => { m with sensor := { m.sensor with signal := x } }
  | .opId, x => { m with vdev := { m.vdev with opId := x } }
  | .challenge, x => { m with vdev := { m.vdev with challenge := x } }
  | .userId, x => { m with vdev := { m.vdev with userId := x } }
  | .secureUserId, x => { m with vdev := { m.vdev with secureUserId := x } }
  | .authenticatorId, x => { m with vdev := { m.vdev with authenticatorId := x } }
  | .activeGid, x => { m with vdev := { m.vdev with activeGid := x } }
  | .notify, x => { m with vdev := { m.vdev with notify := x } }

/-- Giving a mutex to a thread, or to nobody. -/
def Mem.setLock (m : Mem) (mu : Mutex) (o : Option Tid) : Mem :=
  { m with locks := Function.update m.locks mu o }

/-- Changing who waits on a condition variable. -/
def Mem.setWaiters (m : Mem) (c : Cond) (ts : List Tid) : Mem :=
  { m with waiters := Function.update m.waiters c ts }

/-- Changing a table. -/
def Mem.setTable (m : Mem) (gid : UInt32) (rows : Table) : Mem :=
  { m with db := ⟨Function.update m.db.tables (gidNumber gid) (some rows)⟩ }

/-- Changing whether an app handle is held. -/
def Mem.setHandle (m : Mem) (b : Bool) : Mem := { m with tz := { m.tz with qhandle := b } }

/-- The rows of a group's table; a table that was never created has none. -/
def Mem.rows (m : Mem) (gid : UInt32) : Table := (m.db.tables (gidNumber gid)).getD []

/-! ## Procedures -/

/-- The procedures a `pthread_create` of the HAL starts. -/
inductive Worker
  | vcsAuthenticate
  | vcsEnroll
  | vcsTimeout
  deriving DecidableEq

/-- The procedures. Each is a function of the source, or a loop of the function it is named after. -/
inductive Call
  | getTzState
  | setTzState (state : WorkerState)
  | vcsUpdateCalData
  | vcsCheckState
  | vcsStartCapture (t : CInt)
  | vcsStartCaptureWait
  | vcsStartCaptureRead
  | vcsAuthenticate
  | vcsAuthenticateLoop
  | vcsEnroll
  | vcsEnrollLoop (idx : ℤ) (count : CInt)
  | vcsTimeout
  | vcsTimeoutLoop
  | vcsStartAuthenticate
  | vcsStartEnroll (timeout : UInt32)
  | vcsGetEnrolledFingerNum
  | vcsUpdateAuthToken
  | vcsStartAuthSession
  | vcsStopAuthSession
  | vcsResume
  | vcsUninit
  | vcsInit
  | sensorUninit
  | sensorInit
  | sensorProcessSignal
  | sensorRegister
  | sensorCaptureStart
  | dbCheckAndCreateTable
  | dbConvertOldDb
  | dbReadToTz
  | dbWriteToDb (remove : Bool) (fid : ℤ)
  | dbInit
  | dbUninit
  | sendErrorNotice (errorInfo : CInt)
  | sendAcquiredNotice (acquiredRet : CInt)
  | sendEnrollNotice (fid : ℤ) (remaining : CInt)
  | sendAuthenticatedNotice (fid : ℤ)
  | sendRemoveNotice (fid : ℤ)
  | fingerprintGetAuthId
  | fingerprintSetActiveGroup (gid : UInt32)
  | fingerprintAuthenticate (operationId : UInt64)
  | fingerprintEnroll (hat : Option HwAuthToken) (timeoutSec : UInt32)
  | fingerprintPreEnroll
  | fingerprintPostEnroll
  | fingerprintCancel
  | fingerprintCancelLoop
  | fingerprintEnumerate
  | fingerprintRemove (fid : UInt32)
  | setNotifyCallback (notify : ℕ)
  | fingerprintClose
  | fingerprintOpen

/-- How the image loop of `vcs_enroll` is left: by `goto out`, by `return`, or by `break` or the
loop condition. -/
inductive EnrollExit
  | gotoOut
  | returned
  | fellThrough
  deriving DecidableEq

/-- The result type of a procedure. The loop of `vcs_authenticate` gives `fingerindex`. -/
@[reducible] def Ret : Call → Type
  | .getTzState => WorkerState
  | .vcsUpdateCalData | .vcsCheckState | .vcsStartCapture _ | .vcsStartCaptureRead => CInt
  | .vcsAuthenticateLoop => ℤ
  | .vcsEnrollLoop _ _ => EnrollExit
  | .vcsStartAuthenticate | .vcsStartEnroll _ | .vcsGetEnrolledFingerNum => CInt
  | .vcsUpdateAuthToken | .vcsStartAuthSession | .vcsStopAuthSession => CInt
  | .vcsResume | .vcsUninit | .vcsInit => CInt
  | .sensorUninit | .sensorInit | .sensorRegister | .sensorCaptureStart => CInt
  | .dbCheckAndCreateTable | .dbConvertOldDb | .dbReadToTz | .dbWriteToDb _ _ => CInt
  | .dbInit | .dbUninit => CInt
  | .fingerprintGetAuthId | .fingerprintPreEnroll => UInt64
  | .fingerprintSetActiveGroup _ | .fingerprintAuthenticate _ | .fingerprintEnroll _ _ => CInt
  | .fingerprintPostEnroll | .fingerprintCancel | .fingerprintEnumerate => CInt
  | .fingerprintRemove _ | .setNotifyCallback _ | .fingerprintClose | .fingerprintOpen => CInt
  | _ => Unit

instance (c : Call) : Nonempty (Ret c) := by
  cases c <;> first | exact ⟨0⟩ | exact ⟨()⟩ | exact ⟨.stateIdle⟩ | exact ⟨.returned⟩

/-- The procedure a created thread runs. -/
def Worker.call : Worker → Call
  | .vcsAuthenticate => .vcsAuthenticate
  | .vcsEnroll => .vcsEnroll
  | .vcsTimeout => .vcsTimeout

/-! ## Operations -/

/-- The driver requests of `vfs61xx_ioctl.h` the HAL makes, with their argument. -/
inductive Ioctl
  | resetSpiConfiguration
  | disableSpiClock
  | deviceSuspend
  | powerOff
  | powerOn
  | setClk (clock : CInt)
  | deviceReset
  | setSpiConfiguration
  | setDrdyInt (flag : CInt)
  | registerDrdySignal
  deriving DecidableEq

/-- The operations. A wait on a condition variable is two of them: giving up the mutex and
joining the waiters (`condBlock`), then, once woken, taking the mutex back (`condWake`).
`derefHandle` reads `ion_sbuffer` behind `tz.qhandle` and says whether that was a handle; `fault` is
where a thread stays that has dereferenced NULL. -/
inductive Op
  | load (v : Var)
  | store (v : Var) (x : v.Ty)
  | lock (mu : Mutex)
  | unlock (mu : Mutex)
  | condBlock (c : Cond) (mu : Mutex)
  | condWake (c : Cond) (mu : Mutex)
  | condTimedWake (c : Cond) (mu : Mutex)
  | condSignal (c : Cond)
  | pthreadCreate (w : Worker)
  | pthreadJoin (t : Tid)
  | usleep
  | time
  | clockGettime
  | calloc
  | clearDevice
  | clearTz
  | clearSensor
  | openSensor
  | closeSensor
  | ioctl (req : Ioctl)
  | qseecomStartApp
  | qseecomSetBandwidth (high : Bool)
  | qseecomShutdownApp
  | qseecomSendCmd (req : Request)
  | derefHandle
  | fault
  | notify (msg : FingerprintMsg)
  | readDbFile
  | sqlOpen
  | sqlClose
  | sqlCreate (gid : UInt32)
  | sqlDelete (gid : UInt32) (fid : ℤ)
  | sqlPrepareInsert (gid : UInt32)
  | sqlBindBlob (i : ℕ)
  | sqlInsert (gid : UInt32) (fid : ℤ) (boundData boundPayload : Bool)
  | sqlSelect (gid : UInt32)
  | sqlStep (left : Bool)
  | readBlob (blob : List UInt8) (n : ℕ)
  | copyData (idx : ℤ) (blob : List UInt8)
  | copyPayload (idx : ℤ) (blob : List UInt8)
  | legacyAccess
  | legacyOpen
  | legacySelectEnrollments
  | legacySelectProperties
  | legacyClose
  | legacyRemove

/-- The response type of an operation. -/
@[reducible] def Resp : Op → Type
  | .load v => v.Ty
  | .condTimedWake _ _ => CInt
  | .pthreadCreate _ => Except CInt Tid
  | .time | .openSensor | .closeSensor | .ioctl _ => CInt
  | .clockGettime => UInt64
  | .calloc | .legacyAccess | .derefHandle => Bool
  | .qseecomStartApp | .qseecomSetBandwidth _ | .qseecomShutdownApp => CInt
  | .qseecomSendCmd _ => Reply
  | .readDbFile => Option (List UInt8)
  | .sqlOpen | .sqlClose | .sqlCreate _ | .sqlDelete _ _ => CInt
  | .sqlPrepareInsert _ | .sqlBindBlob _ | .sqlInsert _ _ _ _ | .sqlStep _ => CInt
  | .sqlSelect _ => Option Table
  | .readBlob _ n => Bytes n
  | .legacyOpen | .legacyClose | .legacyRemove => CInt
  | .legacySelectEnrollments => Option (List (ℤ × List UInt8))
  | .legacySelectProperties => Option (List (List UInt8))
  | _ => Unit

instance (o : Op) : Nonempty (Resp o) := by
  cases o with
  | load v => exact inferInstanceAs (Nonempty v.Ty)
  | qseecomSendCmd req => exact ⟨⟨0, 0, fun _ => 0⟩⟩
  | pthreadCreate w => exact ⟨.error 0⟩
  | _ => first | exact ⟨0⟩ | exact ⟨()⟩ | exact ⟨false⟩ | exact ⟨none⟩

/-- What a schedule chooses for an operation: nothing, the number an outside function returns,
a TrustZone reply, the name of a created or woken thread, that a timer runs out, or the bytes
that happen to lie behind a blob. -/
inductive Choice
  | tick
  | num (n : ℤ)
  | reply (r : Reply)
  | thread (t : Tid)
  | expire
  | bytes (beyond : ℕ → UInt8)

/-- The number an outside function returns; 0 unless another one is chosen. -/
def Choice.int : Choice → CInt
  | .num n => Int32.ofInt n
  | _ => 0

/-- `memcpy` of `blob` over the front of an array. -/
def overlay {n : ℕ} (a : Bytes n) (blob : List UInt8) : Bytes n :=
  Vector.ofFn fun i => blob.getD i.val a[i]

/-- The meaning of the operations. Where the right side is `none`, the operation blocks or the
choice is not one the outside can make. -/
def act (fin : Tid → Bool) (t : Tid) : (o : Op) → Choice → Mem → Option (Resp o × Mem)
  | .load v, _, m => some (m.get v, m)
  | .store v x, _, m => some ((), m.set v x)
  | .lock mu, _, m => if m.locks mu = none then some ((), m.setLock mu (some t)) else none
  | .unlock mu, _, m => some ((), m.setLock mu none)
  | .condBlock c mu, _, m => some ((), (m.setLock mu none).setWaiters c (t :: m.waiters c))
  | .condWake c mu, _, m =>
    if t ∉ m.waiters c ∧ m.locks mu = none then some ((), m.setLock mu (some t)) else none
  | .condTimedWake c mu, .expire, m =>
    if t ∈ m.waiters c ∧ m.locks mu = none then
      some (etimedout, (m.setLock mu (some t)).setWaiters c ((m.waiters c).erase t))
    else none
  | .condTimedWake c mu, _, m =>
    if t ∉ m.waiters c ∧ m.locks mu = none then some (0, m.setLock mu (some t)) else none
  | .condSignal c, .thread u, m =>
    if u ∈ m.waiters c then some ((), m.setWaiters c ((m.waiters c).erase u)) else none
  | .condSignal c, _, m => if m.waiters c = [] then some ((), m) else none
  | .pthreadCreate _, .thread u, m => some (.ok u, m)
  | .pthreadCreate _, ch, m => if ch.int ≠ 0 then some (.error ch.int, m) else none
  | .pthreadJoin u, _, m => if fin u then some ((), m) else none
  | .usleep, _, m => some ((), m)
  | .time, ch, m => some (ch.int, m)
  | .clockGettime, .num n, m => some (UInt64.ofNat n.toNat, m)
  | .clockGettime, _, m => some (0, m)
  | .calloc, ch, m => some (ch.int == 0, m)
  | .clearDevice, _, m => some ((), { m with vdev := .zero })
  | .clearTz, _, m => some ((), { m with tz := .zero })
  | .clearSensor, _, m => some ((), { m with sensor := ⟨false, false⟩ })
  | .openSensor, ch, m => some (ch.int, m)
  | .closeSensor, ch, m => some (ch.int, m)
  | .ioctl _, ch, m => some (ch.int, m)
  | .qseecomStartApp, ch, m =>
    some (ch.int, if ch.int = 0 then m.setHandle true else m)
  | .qseecomSetBandwidth _, ch, m => some (ch.int, m)
  | .qseecomShutdownApp, ch, m => some (ch.int, m.setHandle false)
  | .qseecomSendCmd _, .reply r, m => some (r, m)
  | .qseecomSendCmd _, _, _ => none
  | .derefHandle, _, m => some (m.tz.qhandle, m)
  | .fault, _, _ => none
  | .notify _, _, m => some ((), m)
  | .readDbFile, ch, m => some (if ch.int = 0 then some (m.dbFile m.db) else none, m)
  | .sqlOpen, ch, m => some (ch.int, m)
  | .sqlClose, ch, m => some (ch.int, m)
  | .sqlCreate gid, ch, m =>
    -- a name with a minus sign in it is a syntax error
    if ch.int ≠ sqliteOk then some (ch.int, m)
    else if 0 ≤ gidNumber gid ∧ m.db.tables (gidNumber gid) = none then
      some (sqliteOk, m.setTable gid [])
    else none
  | .sqlDelete gid fid, ch, m =>
    if ch.int ≠ sqliteOk then some (ch.int, m)
    else if (m.db.tables (gidNumber gid)).isSome then
      some (sqliteOk, m.setTable gid ((m.rows gid).filter fun row => row.id != fid))
    else none
  | .sqlPrepareInsert gid, ch, m =>
    if ch.int ≠ sqliteOk then some (ch.int, m)
    else if (m.db.tables (gidNumber gid)).isSome then some (sqliteOk, m) else none
  | .sqlBindBlob _, ch, m => some (ch.int, m)
  | .sqlInsert gid fid boundData boundPayload, ch, m =>
    -- the blobs are bound in place: they are read when the statement is stepped
    if ch.int ≠ sqliteDone then some (ch.int, m)
    else if (m.db.tables (gidNumber gid)).isSome then
      some (sqliteDone, m.setTable gid (m.rows gid ++
        [⟨fid, if boundData then (m.tz.finger fid).data.toList else [],
          if boundPayload then (m.tz.finger fid).payload.toList else []⟩]))
    else none
  | .sqlSelect gid, ch, m =>
    if ch.int ≠ sqliteOk then some (none, m)
    else if (m.db.tables (gidNumber gid)).isSome then some (some (m.rows gid), m) else none
  | .sqlStep left, ch, m =>
    if (ch.int = sqliteRow ∧ left = false) ∨ (ch.int = sqliteDone ∧ left = true) then none
    else some (ch.int, m)
  | .readBlob blob _, .bytes beyond, m =>
    some (Vector.ofFn fun i => blob.getD i.val (beyond i.val), m)
  | .readBlob blob _, _, m => some (Vector.ofFn fun i => blob.getD i.val 0, m)
  | .copyData idx blob, _, m =>
    some ((), m.setFinger idx { m.tz.finger idx with data := overlay (m.tz.finger idx).data blob })
  | .copyPayload idx blob, _, m =>
    some ((), m.setFinger idx
      { m.tz.finger idx with payload := overlay (m.tz.finger idx).payload blob })
  | .legacyAccess, _, m => some (m.legacy.isSome, m)
  | .legacyOpen, ch, m => some (ch.int, m)
  | .legacySelectEnrollments, ch, m =>
    some (if ch.int = sqliteOk then m.legacy.map (·.enrollments) else none, m)
  | .legacySelectProperties, ch, m =>
    some (if ch.int = sqliteOk then m.legacy.map (·.properties) else none, m)
  | .legacyClose, ch, m => some (ch.int, m)
  | .legacyRemove, ch, m =>
    some (ch.int, if ch.int = 0 then { m with legacy := none } else m)

/-- The thread a response says was created. -/
def spawns : (o : Op) → Resp o → Option (Tid × Call)
  | .pthreadCreate w, .ok u => some (u, w.call)
  | _, _ => none

/-! ## Code -/

/-- Code of a HAL thread. -/
abbrev Code := Prog Resp Ret

/-- Read a shared variable. -/
def load (v : Var) : Code v.Ty := Prog.perform (Op.load v)

/-- Write a shared variable. -/
def store (v : Var) (x : v.Ty) : Code Unit := Prog.perform (Op.store v x)

/-- Perform an operation. -/
def op (o : Op) : Code (Resp o) := Prog.perform o

/-- Call a procedure. -/
def call (c : Call) : Code (Ret c) := Prog.invoke c

/-- `for (idx = ..; idx <= MAX_NUM_FINGERS; idx++) if (!tz.finger[idx].exist) break;`
with `n` slots left. -/
def firstFreeSlot : ℕ → ℤ → Code ℤ
  | 0, idx => return idx
  | n + 1, idx => do
    if !(← load (.fingerExist idx)) then
      return idx
    firstFreeSlot n (idx + 1)

end KlteCommon.Fingerprint
