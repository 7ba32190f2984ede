import KlteCommon.Fingerprint.Operations

/-!
# `fingerprint_tz.c`

The TrustZone commands, the capture, the two workers, the timeout thread and the functions that
start them, function by function. A reply is read from the response of its own command; nothing
reads the shared buffer across two commands.
-/

set_option autoImplicit false

namespace KlteCommon.Fingerprint

open KlteCommon.Computation

/-- `QSEECom_send_cmd` -/
def send (req : Request) : Code Reply := op (.qseecomSendCmd req)

/-- The first `handle->ion_sbuffer` of a function, with `handle` as it is in `tz.qhandle`. A NULL handle
is a memory fault, and the thread gets no further. -/
def ionSbuffer : Code Unit := do
  if !(← op .derefHandle) then
    op .fault

/-- `handle->ion_sbuffer` once more, of the handle the function has read. -/
def sameIonSbuffer : Code Unit := do
  let _ ← op .derefHandle

/-- The bytes of an `int`. -/
def intBytes (x : CInt) : List UInt8 := (List.range 4).map (byteOf fun _ => x)

/-! ## Worker state -/

/-- `get_tz_state` -/
def getTzState : Code WorkerState := do
  op (.lock .tzLock)
  let state ← load .tzState
  op (.unlock .tzLock)
  return state

/-- `set_tz_state` -/
def setTzState (state : WorkerState) : Code Unit := do
  op (.lock .tzLock)
  store .tzState state
  op (.unlock .tzLock)

/-- `vcs_check_state` -/
def vcsCheckState : Code CInt := do
  ionSbuffer
  if (← call .getTzState) = .stateIdle then
    return 1
  if (← call .getTzState) = .stateCancel then
    let _ ← send { cmd := .vfmCaptureAbort }
    call (.setTzState .stateIdle)
    return 1
  return 0

/-! ## Capture -/

/-- The length and the start of a calibration reply: `memcpy(&tz.calibrate_data, &resp->data[2],
resp->data[3] + 0xf)`. -/
def calibration (resp : Reply) (old : Bytes calibrateDataMaxLength) :
    CInt × Bytes calibrateDataMaxLength :=
  let len := resp.data 3 + 0xf
  let new := resp.bytes calibrateDataMaxLength
  (len, Vector.ofFn fun i => if i.val < len.toUInt32.toNat then new[i] else old[i])

/-- `vcs_update_cal_data` -/
def vcsUpdateCalData : Code CInt := do
  ionSbuffer
  let resp ← send
    { cmd := .vfmVendorDefinedOperation
      vendorCmd := .vendorUpdateCalData
      preset := [(0, Int32.ofNat calibrateDataMaxLength)] }
  if resp.failed then
    return resp.ret
  let old ← load .calibrateData
  store .calibrateLen (calibration resp old).1
  store .calibrateData (calibration resp old).2
  return resp.ret

/-- The loop of `vcs_start_capture` that waits for the finger; `sensor.lock` is held. -/
def vcsStartCaptureWait : Code Unit := do
  if (← call .vcsCheckState) ≠ 0 then
    return
  if ← load .sensorSignal then
    return
  op (.condBlock .sensorCond .sensorLock)
  op (.condWake .sensorCond .sensorLock)
  call .vcsStartCaptureWait

/-- The loop of `vcs_start_capture` that reads the image; -1 if it returns from there, else 0. -/
def vcsStartCaptureRead : Code CInt := do
  if (← call .vcsCheckState) ≠ 0 then
    return -1
  sameIonSbuffer
  let resp ← send { cmd := .vfmCaptureReadData, len := 0x8000, preset := [(0, 0xc)] }
  if resp.failed then
    return ← call .vcsStartCaptureRead
  if resp.data 2 = 2 then
    return 0
  return ← call .vcsStartCaptureRead

/-- `vcs_start_capture` -/
def vcsStartCapture (t : CInt) : Code CInt := do
  ionSbuffer
  let resp ← send
    { cmd := .vfmCaptureStart
      len := 0x1c
      data := [(16, [0x1]), (20, if t ≠ 0 then intBytes t else []), (24, [0xc0]), (25, [0x12])] }
  if resp.failed then
    return resp.ret
  let _ ← call .vcsUpdateCalData
  op (.lock .sensorLock)
  let _ ← call .sensorCaptureStart
  op (.unlock .sensorLock)
  op (.lock .sensorLock)
  call .vcsStartCaptureWait
  op (.unlock .sensorLock)
  if (← call .vcsCheckState) ≠ 0 then
    return -1
  op (.lock .sensorLock)
  if (← load .sensorSignal) = true then
    store .sensorSignal false
  op (.unlock .sensorLock)
  if (← call .vcsStartCaptureRead) ≠ 0 then
    return -1
  sameIonSbuffer
  let now ← op .time
  let resp ← send
    { cmd := .vfmCaptureProcessData
      len := 0x1c
      data := [(16, [0x1]), (20, intBytes now), (24, [0xc0]), (25, [0x12])]
      preset := [(0, 0xc)] }
  if resp.ret ≠ 0 then
    return -1
  if resp.result ≠ 0 then
    call (.sendAcquiredNotice resp.result)
    let now ← op .time
    return ← call (.vcsStartCapture now)
  return 0

/-! ## Authentication -/

/-- `vcs_get_enrolled_finger_num`, with `n` slots left. -/
def countFingers : ℕ → ℤ → CInt → Code CInt
  | 0, _, num => return num
  | n + 1, idx, num => do
    if ← load (.fingerExist idx) then
      countFingers n (idx + 1) (num + 1)
    else
      countFingers n (idx + 1) num

/-- `vcs_get_enrolled_finger_num` -/
def vcsGetEnrolledFingerNum : Code CInt := countFingers maxNumFingers 1 0

/-- The templates of a match request: the data of the occupied slots, each behind its header. -/
def matchTemplates : ℕ → ℤ → ℕ → Code (List (ℕ × List UInt8))
  | 0, _, _ => return []
  | n + 1, idx, len => do
    if ← load (.fingerExist idx) then
      let len := len + 1
      let address := 102392 + (len - 1) * 15364
      let data ← load (.fingerData idx)
      let rest ← matchTemplates n (idx + 1) len
      return (address, [0x45]) :: (address + 1, [0x28]) :: (address + 4, data.toList) :: rest
    else
      matchTemplates n (idx + 1) len

/-- The scan for the occupied slot that is the `fakeFid`-th; the old index if there is none. -/
def findMatched (fakeFid : CInt) (fingerindex : ℤ) : ℕ → ℤ → CInt → Code ℤ
  | 0, _, _ => return fingerindex
  | n + 1, idx, len => do
    if ← load (.fingerExist idx) then
      if len + 1 = fakeFid then
        return idx
      findMatched fakeFid fingerindex n (idx + 1) (len + 1)
    else
      findMatched fakeFid fingerindex n (idx + 1) len

/-- The loop of `vcs_authenticate`; the value is `fingerindex`, still 0 on every way out but the
last. -/
def vcsAuthenticateLoop : Code ℤ := do
  if (← call .getTzState) ≠ .stateScan then
    return 0
  if (← call (.vcsStartCapture 0)) = -1 then
    return 0
  sameIonSbuffer
  let now ← op .time
  let num ← call .vcsGetEnrolledFingerNum
  let templates ← matchTemplates maxNumFingers 1 0
  let resp ← send
    { cmd := .vfmMatchImageToTemplates
      len := 0x14
      unknown := [1, 100000]
      timeNow := now
      data := (0, [0x1]) :: (102388, [num.toUInt32.toUInt8]) :: templates
      preset := [(0, 0x5c), (25602, 0x3000)] }
  if resp.ret ≠ 0 then
    call (.sendErrorNotice fingerprintErrorUnableToProcess)
    return 0
  if resp.result ≠ 0 then
    call (.sendAcquiredNotice resp.result)
    return ← call .vcsAuthenticateLoop
  let fakeFid := resp.data 22 + 1
  let fingerindex ← findMatched fakeFid 0 maxNumFingers 1 0
  sameIonSbuffer
  let payload ← load (.fingerPayload fingerindex)
  let _ ← send
    { cmd := .vfmPayloadRelease
      len := Int32.ofNat payloadMaxLength
      data := [(0, payload.toList)]
      preset := [(0, 0x24)] }
  return fingerindex

/-- `vcs_authenticate` -/
def vcsAuthenticate : Code Unit := do
  ionSbuffer
  let _ ← send
    { cmd := .vfmVendorDefinedOperation, vendorCmd := .vendorUnknown0, preset := [(0, 0x4)] }
  let fingerindex ← call .vcsAuthenticateLoop
  let _ ← call .sensorUninit
  let _ ← call .vcsUninit
  call (.setTzState .stateIdle)
  if fingerindex ≠ 0 then
    call (.sendAuthenticatedNotice fingerindex)

/-! ## Enrollment -/

/-- The search of `vcs_enroll` for a free slot. -/
abbrev enrollSlot : Code ℤ := firstFreeSlot maxNumFingers 1

/-- `count` after an image: it never gets to 0 unless the reply says that the template is
complete. -/
def samplesRemaining (count : CInt) (data2 : CInt) : CInt :=
  if data2 = 0x1 then 0
  else if count - 1 = 0 then 1
  else count - 1

/-- The image loop of `vcs_enroll`. -/
def vcsEnrollLoop (idx : ℤ) (count : CInt) : Code EnrollExit := do
  if (← call .getTzState) ≠ .stateEnroll then
    return .fellThrough
  if (← call (.vcsStartCapture 0)) = -1 then
    return .gotoOut
  sameIonSbuffer
  let resp ← send { cmd := .vfmEnrollAddImage, preset := [(0, 0x8)] }
  if resp.ret ≠ 0 then
    call (.setTzState .stateIdle)
    call (.sendErrorNotice fingerprintErrorUnableToProcess)
    return .returned
  if resp.result ≠ 0 then
    call (.sendAcquiredNotice resp.result)
    return ← call (.vcsEnrollLoop idx count)
  let count := samplesRemaining count (resp.data 2)
  call (.sendEnrollNotice idx count)
  if count = 0 then
    return .fellThrough
  return ← call (.vcsEnrollLoop idx count)

/-- The characters of a C string with its end. -/
def cString (s : String) : List UInt8 := s.toUTF8.toList ++ [0]

/-- One `vfmPayloadBind`; `i` is the loop variable. -/
def payloadBind (i : ℕ) : Code Reply :=
  send
    { cmd := .vfmPayloadBind
      len := 0x1
      zero := 0x7
      data := [(4, cString "User_0")]
      preset := if i = 1 then [(0, 0x50)] else [] }

/-- One `vfmEnrollmentPasswordSet`; `i` is the loop variable. -/
def enrollmentPasswordSet (i : ℕ) : Code Reply := do
  sameIonSbuffer
  let token ← load .authSessionToken
  send
    { cmd := .vfmEnrollmentPasswordSet
      len := Int32.ofNat authSessionTokenLength
      data := [(0, token.toList)]
      preset := [(0, if i = 0 then 0x90 else 0x80)] }

/-- `vcs_enroll` behind the image loop: the template is finished, bound and stored, whatever
TrustZone answered. -/
def vcsEnrollCommit (idx : ℤ) : Code Unit := do
  sameIonSbuffer
  let token ← load .authSessionToken
  let resp ← send
    { cmd := .vfmEnrollFinish
      len := Int32.ofNat authSessionTokenLength
      data := [(0, token.toList)]
      preset := [(0, 0x2845)] }
  store (.fingerData idx) (resp.bytes fingerDataMaxLength)
  let _ ← payloadBind 0
  let resp ← payloadBind 1
  store (.fingerPayload idx) (resp.bytes payloadMaxLength)
  store (.fingerExist idx) true
  let _ ← call (.dbWriteToDb false idx)
  let _ ← enrollmentPasswordSet 0
  let _ ← enrollmentPasswordSet 1
  return

/-- `vcs_enroll` -/
def vcsEnroll : Code Unit := do
  ionSbuffer
  let idx ← enrollSlot
  let resp ← send { cmd := .vfmEnrollBegin, data := [(102400, [UInt8.ofNat idx.toNat])] }
  if resp.failed then
    call (.setTzState .stateIdle)
    call (.sendErrorNotice fingerprintErrorUnableToProcess)
    return
  let resp ← send
    { cmd := .vfmVendorDefinedOperation, vendorCmd := .vendorUnknownA, preset := [(0, 0x4)] }
  if resp.failed then
    call (.setTzState .stateIdle)
    call (.sendErrorNotice fingerprintErrorUnableToProcess)
    return
  let exit ← call (.vcsEnrollLoop idx 8)
  if exit = .returned then
    return
  if exit = .fellThrough then
    vcsEnrollCommit idx
  call (.setTzState .stateIdle)
  let _ ← call .sensorUninit
  let _ ← call .vcsUninit
  return

/-! ## Starting and stopping the workers -/

/-- The loop of `vcs_timeout` that waits for the worker. -/
def vcsTimeoutLoop : Code Unit := do
  op .usleep
  if (← call .getTzState) = .stateIdle then
    return
  call .vcsTimeoutLoop

/-- `vcs_timeout` -/
def vcsTimeout : Code Unit := do
  op (.lock .timeoutLock)
  let _ ← load .timeout
  op (.condBlock .timeoutCond .timeoutLock)
  let ret ← op (.condTimedWake .timeoutCond .timeoutLock)
  op (.unlock .timeoutLock)
  if ret = etimedout then
    if (← call .getTzState) ≠ .stateIdle then
      if (← call .getTzState) ≠ .stateCancel then
        call (.setTzState .stateCancel)
        let _ ← op (.ioctl (.setDrdyInt 0))
        call .vcsTimeoutLoop
    call (.sendErrorNotice fingerprintErrorTimeout)

/-- The busy test of `vcs_start_authenticate`, with `n` tries left: whether the sensor was found
busy at the last one. -/
def awaitIdle : ℕ → Code Bool
  | 0 => return false
  | n + 1 => do
    if (← call .getTzState) ≠ .stateIdle then
      if n = 0 then
        return true
      op .usleep
    awaitIdle n

/-- `vcs_start_authenticate` -/
def vcsStartAuthenticate : Code CInt := do
  if ← awaitIdle 5 then
    return -1
  call (.setTzState .stateScan)
  let _ ← call .sensorInit
  let ret ← call .vcsInit
  if ret ≠ 0 then
    return ret
  match ← op (.pthreadCreate .vcsAuthenticate) with
  | .ok _ => return 0
  | .error ret => return ret

/-- `vcs_start_enroll` -/
def vcsStartEnroll (timeout : UInt32) : Code CInt := do
  if (← call .getTzState) ≠ .stateIdle then
    return -1
  call (.setTzState .stateEnroll)
  let _ ← call .sensorInit
  let ret ← call .vcsInit
  if ret ≠ 0 then
    return ret
  match ← op (.pthreadCreate .vcsEnroll) with
  | .error ret => return ret
  | .ok _ =>
    if timeout = 0 then
      return 0
    store .timeout timeout
    match ← op (.pthreadCreate .vcsTimeout) with
    | .error ret => return ret
    | .ok t =>
      store .timeoutThread (some t)
      return 0

/-! ## The session with the app -/

/-- One `vendorGetAuthToken`; `i` is the loop variable. -/
def getAuthToken (i : ℕ) : Code Reply :=
  send
    { cmd := .vfmVendorDefinedOperation
      vendorCmd := .vendorGetAuthToken
      preset := if i = 1 then [(0, 0x80)] else [] }

/-- `vcs_update_auth_token` -/
def vcsUpdateAuthToken : Code CInt := do
  ionSbuffer
  let _ ← getAuthToken 0
  let resp ← getAuthToken 1
  if resp.result ≠ 0 then
    return resp.result
  store .authToken (resp.bytes authTokenLength)
  return resp.ret

/-- `vcs_start_auth_session` -/
def vcsStartAuthSession : Code CInt := do
  ionSbuffer
  let resp ← send
    { cmd := .vfmAuthSessionBegin, preset := [(0, Int32.ofNat authSessionTokenLength)] }
  if resp.failed then
    return resp.ret
  store .authSessionToken (resp.bytes authSessionTokenLength)
  store .authSessionOpend true
  return resp.ret

/-- `vcs_stop_auth_session` -/
def vcsStopAuthSession : Code CInt := do
  ionSbuffer
  let resp ← send { cmd := .vfmAuthSessionEnd }
  store .authSessionToken (Vector.replicate _ 0)
  store .authSessionOpend false
  return resp.ret

/-- The end of `vcs_resume`: `vfmDeviceInitialize` and `vfmDeviceCalibrate`. -/
def deviceResume : Code CInt := do
  let resp ← send { cmd := .vfmDeviceInitialize }
  if resp.failed then
    return resp.ret
  let calibrateLen ← load .calibrateLen
  let calibrateData ← load .calibrateData
  let resp ← send
    { cmd := .vfmDeviceCalibrate
      len := if calibrateLen ≠ 0 then calibrateLen else 0x10
      data := (0, [0xc0]) :: (1, [0x12]) ::
        if calibrateLen ≠ 0 then [(4, calibrateData.toList.take calibrateLen.toUInt32.toNat)]
        else []
      preset := [(0, Int32.ofNat calibrateDataMaxLength)] }
  if resp.failed then
    return resp.ret
  if (← load .calibrateLen) = 0 then
    let old ← load .calibrateData
    store .calibrateLen (calibration resp old).1
    store .calibrateData (calibration resp old).2
  return resp.ret

/-- `vcs_resume` -/
def vcsResume : Code CInt := do
  ionSbuffer
  let resp ← send { cmd := .vfmInitialize, len := 4, data := [(0, [2])] }
  if resp.failed then
    return resp.ret
  if ← load .authSessionOpend then
    sameIonSbuffer
    let authToken ← load .authToken
    let resp ← send
      { cmd := .vfmVendorDefinedOperation
        vendorCmd := .vendorEnterAuthSession
        len := 0x70
        data := [(0, authToken.toList)] }
    if resp.failed then
      return resp.result
  deviceResume

/-- `vcs_uninit` -/
def vcsUninit : Code CInt := do
  ionSbuffer
  if ← load .authSessionOpend then
    let _ ← call .vcsUpdateAuthToken
  let _ ← send { cmd := CmdId.vfmUninitialize }
  let _ ← op (.qseecomSetBandwidth false)
  let _ ← op .qseecomShutdownApp
  store .tzInit false
  call (.setTzState .stateIdle)
  return 0

/-- `vcs_init` -/
def vcsInit : Code CInt := do
  if ← load .tzInit then
    return 0
  if (← op .qseecomStartApp) ≠ 0 then
    return -1
  if (← op (.qseecomSetBandwidth true)) ≠ 0 then
    return -1
  store .tzInit true
  let ret ← call .vcsResume
  return ret

end KlteCommon.Fingerprint
