import KlteCommon.Fingerprint.Operations
import KlteCommon.Fingerprint.Hash

/-!
# `fingerprint.c`

The sensor, the database, the notices and the entry points of the HAL, function by function. A
function's locals are Lean variables, a `for` over the slots is a recursion on how many are left.
Log output and the bytes of the SQL text are left out.
-/

set_option autoImplicit false

namespace KlteCommon.Fingerprint

open KlteCommon.Computation

/-! ## Sensor -/

/-- `sensor_uninit` -/
def sensorUninit : Code CInt := do
  if !(← load .sensorInit) then
    return 0
  let _ ← op (.ioctl .resetSpiConfiguration)
  let _ ← op (.ioctl .disableSpiClock)
  let _ ← op (.ioctl .deviceSuspend)
  let _ ← op (.ioctl .powerOff)
  store .sensorInit false
  return 0

/-- `sensor_init` -/
def sensorInit : Code CInt := do
  if ← load .sensorInit then
    return 0
  let _ ← op (.ioctl .powerOn)
  let _ ← op (.ioctl (.setClk 65535))
  let _ ← op (.ioctl .deviceReset)
  let _ ← op (.ioctl .setSpiConfiguration)
  let _ ← op (.ioctl (.setClk 4800))
  store .sensorInit true
  return 0

/-- `sensor_process_signal` -/
def sensorProcessSignal : Code Unit := do
  if (← load .timeoutThread).isSome then
    op (.lock .timeoutLock)
    op (.condSignal .timeoutCond)
    op (.unlock .timeoutLock)
    store .timeoutThread none
  op (.lock .sensorLock)
  if (← call .getTzState) ≠ .stateIdle then
    if (← call .getTzState) ≠ .stateCancel then
      store .sensorSignal true
  let _ ← op (.ioctl (.setDrdyInt 0))
  op (.condSignal .sensorCond)
  op (.unlock .sensorLock)

/-- `sensor_register` -/
def sensorRegister : Code CInt := do
  let _ ← op (.ioctl .registerDrdySignal)
  return 0

/-- `sensor_capture_start` -/
def sensorCaptureStart : Code CInt := do
  let ret ← op (.ioctl (.setDrdyInt 1))
  return ret

/-! ## Database -/

/-- `db_check_and_create_table` -/
def dbCheckAndCreateTable : Code CInt := do
  let gid ← load .activeGid
  let ret ← op (.sqlCreate gid)
  return ret

/-- `memset(tz.finger, 0, n * sizeof(finger_t))`, from slot `idx` on. -/
def clearFingers : ℕ → ℤ → Code Unit
  | 0, _ => return
  | n + 1, idx => do
    store (.finger idx) .zero
    clearFingers n (idx + 1)

/-- The loop of `db_convert_old_db` over Samsung's enrollments. -/
def readEnrollments : List (ℤ × List UInt8) → Code Unit
  | [] => do
    let _ ← op (.sqlStep false)
    return
  | (id, data) :: rows => do
    if (← op (.sqlStep true)) ≠ sqliteRow then
      return
    op (.copyData id data)
    store (.fingerExist id) true
    readEnrollments rows

/-- The loop of `db_convert_old_db` that stores what it read; `n` slots are left, from `idx` on. -/
def writeEnrollments (payload : List UInt8) : ℕ → ℤ → Code Unit
  | 0, _ => return
  | n + 1, idx => do
    if ← load (.fingerExist idx) then
      op (.copyPayload idx payload)
      let _ ← call (.dbWriteToDb false idx)
    writeEnrollments payload n (idx + 1)

/-- `db_convert_old_db` -/
def dbConvertOldDb : Code CInt := do
  clearFingers maxNumFingers 0
  if (← op .legacyOpen) ≠ sqliteOk then
    return -1
  let enrollments ← op .legacySelectEnrollments
  readEnrollments (enrollments.getD [])
  let properties := (← op .legacySelectProperties).getD []
  let ret ← op (.sqlStep !properties.isEmpty)
  let payload := if ret = sqliteRow then properties.headD [] else []
  writeEnrollments payload maxNumFingers 1
  if (← op .legacyClose) ≠ sqliteOk then
    return -1
  let ret ← op .legacyRemove
  return ret

/-- The loop of `db_read_to_tz`. -/
def readRows : List Row → Code Unit
  | [] => do
    let _ ← op (.sqlStep false)
    return
  | row :: rows => do
    if (← op (.sqlStep true)) ≠ sqliteRow then
      return
    let data ← op (.readBlob row.data fingerDataMaxLength)
    store (.fingerData row.id) data
    let payload ← op (.readBlob row.payload payloadMaxLength)
    store (.fingerPayload row.id) payload
    store (.fingerExist row.id) true
    readRows rows

/-- `db_read_to_tz` -/
def dbReadToTz : Code CInt := do
  let _ ← call .dbCheckAndCreateTable
  if ← op .legacyAccess then
    let ret ← call .dbConvertOldDb
    return ret
  clearFingers maxNumFingers 0
  let gid ← load .activeGid
  let rows ← op (.sqlSelect gid)
  readRows (rows.getD [])
  return 0

/-- The code `sqlite3_step` returns for a statement that was not prepared. -/
def sqliteMisuse : CInt := 21

/-- `db_write_to_db` -/
def dbWriteToDb (remove : Bool) (fid : ℤ) : Code CInt := do
  let gid ← load .activeGid
  if remove then
    let ret ← op (.sqlDelete gid fid)
    store (.finger fid) .zero
    return ret
  if (← op (.sqlPrepareInsert gid)) ≠ sqliteOk then
    return sqliteMisuse
  let data ← op (.sqlBindBlob 1)
  let payload ← op (.sqlBindBlob 2)
  let ret ← op (.sqlInsert gid fid (data == sqliteOk) (payload == sqliteOk))
  return ret

/-- `db_init` -/
def dbInit : Code CInt := do
  if (← op .sqlOpen) ≠ sqliteOk then
    return -1
  let ret ← call .dbReadToTz
  return ret

/-- `db_uninit` -/
def dbUninit : Code CInt := do
  let ret ← op .sqlClose
  return ret

/-! ## Notices -/

/-- `convert_ret_to_acquired_info` -/
def convertRetToAcquiredInfo (acquiredRet : CInt) : CInt :=
  if acquiredRet = 0 then fingerprintAcquiredGood else fingerprintAcquiredInsufficient

/-- `send_error_notice` -/
def sendErrorNotice (errorInfo : CInt) : Code Unit := do
  op (.lock .vdevLock)
  op (.notify (.error errorInfo))
  op (.unlock .vdevLock)

/-- `send_acquired_notice` -/
def sendAcquiredNotice (acquiredRet : CInt) : Code Unit := do
  op (.lock .vdevLock)
  op (.notify (.acquired (convertRetToAcquiredInfo acquiredRet)))
  op (.unlock .vdevLock)

/-- `send_enroll_notice` -/
def sendEnrollNotice (fid : ℤ) (remaining : CInt) : Code Unit := do
  if fid = 0 then
    return
  if (← load .secureUserId) = 0 then
    return
  op (.lock .vdevLock)
  op (.notify (.enrolling fid remaining))
  op (.unlock .vdevLock)

/-- `htobe32` and `htobe64` on a little-endian machine. -/
def htobe32 (x : UInt32) : UInt32 :=
  (x <<< 24) ||| ((x <<< 8) &&& (0xFF0000 : UInt32)) ||| ((x >>> 8) &&& (0xFF00 : UInt32)) |||
    (x >>> 24)

def htobe64 (x : UInt64) : UInt64 :=
  ((htobe32 x.toUInt32).toUInt64 <<< 32) ||| (htobe32 (x >>> 32).toUInt32).toUInt64

/-- `send_authenticated_notice` -/
def sendAuthenticatedNotice (fid : ℤ) : Code Unit := do
  call (.sendAcquiredNotice fingerprintAcquiredGood)
  let challenge ← load .opId
  let authenticatorId ← load .authenticatorId
  let userId ← load .secureUserId
  let millis ← op .clockGettime
  let hat : HwAuthToken :=
    { version := hwAuthTokenVersion
      challenge
      userId
      authenticatorId
      authenticatorType := htobe32 hwAuthFingerprint
      timestamp := htobe64 millis }
  op (.lock .vdevLock)
  op (.notify (.authenticated fid 0 hat))
  op (.unlock .vdevLock)

/-- `send_remove_notice` -/
def sendRemoveNotice (fid : ℤ) : Code Unit := do
  op (.lock .vdevLock)
  op (.notify (.removed fid))
  op (.unlock .vdevLock)

/-! ## HAL functions -/

/-- `fingerprint_get_auth_id` -/
def fingerprintGetAuthId : Code UInt64 := do
  op (.lock .vdevLock)
  let contents ← op .readDbFile
  store .authenticatorId (hashFile contents)
  let authenticatorId ← load .authenticatorId
  op (.unlock .vdevLock)
  return authenticatorId

/-- `fingerprint_set_active_group` -/
def fingerprintSetActiveGroup (gid : UInt32) : Code CInt := do
  op (.lock .vdevLock)
  store .activeGid gid
  let _ ← call .dbReadToTz
  op (.unlock .vdevLock)
  return 0

/-- `fingerprint_authenticate` -/
def fingerprintAuthenticate (operationId : UInt64) : Code CInt := do
  op (.lock .vdevLock)
  store .opId operationId
  let ret ← call .vcsStartAuthenticate
  op (.unlock .vdevLock)
  return ret

/-- The search of `fingerprint_enroll` for a free slot. -/
abbrev findFreeSlot : Code ℤ := firstFreeSlot maxNumFingers 1

/-- `fingerprint_enroll` -/
def fingerprintEnroll (hat : Option HwAuthToken) (timeoutSec : UInt32) : Code CInt := do
  match hat with
  | none => return -eprotonosupport
  | some hat =>
    if hat.challenge = (← load .challenge) then
      store .secureUserId hat.userId
    if hat.version ≠ hwAuthTokenVersion then
      return -eprotonosupport
    if hat.challenge ≠ (← load .challenge) ∧ hat.authenticatorType &&& hwAuthFingerprint = 0 then
      return -eperm
    store .userId hat.userId
    op (.lock .vdevLock)
    let idx ← findFreeSlot
    if idx > maxNumFingers then
      call (.sendErrorNotice fingerprintErrorNoSpace)
      op (.unlock .vdevLock)
      return -1
    let ret ← call (.vcsStartEnroll timeoutSec)
    op (.unlock .vdevLock)
    return ret

/-- `fingerprint_pre_enroll`. The string starts at `tz.auth_token`, which `tz.auth_session_token`
and then a zero byte of padding follow in memory. -/
def fingerprintPreEnroll : Code UInt64 := do
  let authToken ← load .authToken
  let authSessionToken ← load .authSessionToken
  let challenge := hashString (authToken.toList ++ authSessionToken.toList)
  op (.lock .vdevLock)
  store .challenge challenge
  op (.unlock .vdevLock)
  return challenge

/-- `fingerprint_post_enroll` -/
def fingerprintPostEnroll : Code CInt := do
  op (.lock .vdevLock)
  store .challenge 0
  op (.unlock .vdevLock)
  return 0

/-- The loop of `fingerprint_cancel`, which reads `tz.state` without its lock. -/
def fingerprintCancelLoop : Code Unit := do
  op .usleep
  if (← load .tzState) = .stateIdle then
    return
  call .fingerprintCancelLoop

/-- `fingerprint_cancel` -/
def fingerprintCancel : Code CInt := do
  if (← load .timeoutThread).isSome then
    op (.lock .timeoutLock)
    op (.condSignal .timeoutCond)
    op (.unlock .timeoutLock)
    match ← load .timeoutThread with
    | some t => op (.pthreadJoin t)
    | none => pure ()
    store .timeoutThread none
  if (← call .getTzState) ≠ .stateIdle then
    if (← call .getTzState) ≠ .stateCancel then
      call (.setTzState .stateCancel)
      let _ ← op (.ioctl (.setDrdyInt 0))
      op (.lock .sensorLock)
      op (.condSignal .sensorCond)
      op (.unlock .sensorLock)
      call .fingerprintCancelLoop
      call (.sendErrorNotice fingerprintErrorCanceled)
  return 0

/-- `fingerprint_enumerate` -/
def fingerprintEnumerate : Code CInt := do
  op (.lock .vdevLock)
  let num ← call .vcsGetEnrolledFingerNum
  op (.unlock .vdevLock)
  return num

/-- The loop of `fingerprint_remove` over all slots, with `n` of them left and the result of the
last removal. -/
def removeFingers : ℕ → ℤ → CInt → Code CInt
  | 0, _, ret => return ret
  | n + 1, idx, ret => do
    if ← load (.fingerExist idx) then
      op (.lock .vdevLock)
      let ret ← call (.dbWriteToDb true idx)
      op (.unlock .vdevLock)
      if ret = 0 then
        call (.sendRemoveNotice idx)
      removeFingers n (idx + 1) ret
    else
      removeFingers n (idx + 1) ret

/-- `fingerprint_remove`; `fid` is passed on as an `int`. -/
def fingerprintRemove (fid : UInt32) : Code CInt := do
  let ret ←
    if fid = 0 then
      removeFingers maxNumFingers 1 0
    else do
      op (.lock .vdevLock)
      let ret ← call (.dbWriteToDb true (gidNumber fid))
      op (.unlock .vdevLock)
      if ret = 0 then
        call (.sendRemoveNotice (gidNumber fid))
      pure ret
  if ret ≠ 0 then
    call (.sendErrorNotice fingerprintErrorUnableToRemove)
  return ret

/-- `set_notify_callback` -/
def setNotifyCallback (notify : ℕ) : Code CInt := do
  if notify = 0 then
    return -1
  op (.lock .vdevLock)
  store .notify notify
  op (.unlock .vdevLock)
  return 0

/-- `fingerprint_close` -/
def fingerprintClose : Code CInt := do
  let _ ← call .fingerprintCancel
  op (.lock .vdevLock)
  let _ ← call .dbUninit
  let _ ← call .sensorInit
  let _ ← call .vcsInit
  let _ ← call .vcsStopAuthSession
  let _ ← call .vcsUninit
  let _ ← call .sensorUninit
  op (.unlock .vdevLock)
  let _ ← op .closeSensor
  return 0

/-- `fingerprint_open` -/
def fingerprintOpen : Code CInt := do
  if !(← op .calloc) then
    return -enomem
  op .clearDevice
  store .activeGid 0
  op .clearTz
  store .sensorSignal false
  store .timeoutThread none
  op .clearSensor
  if (← op .openSensor) < 0 then
    return -1
  let _ ← call .sensorInit
  let _ ← call .sensorRegister
  let _ ← call .sensorUninit
  op (.lock .vdevLock)
  let _ ← call .sensorInit
  let _ ← call .dbInit
  let _ ← call .vcsInit
  let _ ← call .vcsUninit
  let _ ← call .vcsInit
  let _ ← call .vcsStartAuthSession
  let _ ← call .vcsUninit
  let _ ← call .sensorUninit
  op (.unlock .vdevLock)
  return 0

end KlteCommon.Fingerprint
