import KlteCommon.Camera.Wrapper

/-!
# A wrapped camera

What a client calls on an open camera: the functions of `camera_device_ops_t`, as
`camera_device_open` puts them into its table. Most of them pass a call on to the vendor's device
(`forward`). Parameters travel as strings on the heap: here `camera_get_parameters` and
`camera_start_recording` make the copies they make, and `camera_put_parameters` frees one.
-/

set_option autoImplicit false

namespace KlteCommon.Camera

/-! ## Calls of the vendor's device -/

/-- The functions of the vendor's device that get a client's own arguments. -/
inductive DeviceOp
  | setPreviewWindow (window : ℕ)
  | enableMsgType (msgType : CInt)
  | disableMsgType (msgType : CInt)
  | msgTypeEnabled (msgType : CInt)
  | startPreview
  | stopPreview
  | previewEnabled
  | storeMetaDataInBuffers (enable : CInt)
  | stopRecording
  | recordingEnabled
  | releaseRecordingFrame (frame : ℕ)
  | autoFocus
  | cancelAutoFocus
  | takePicture
  | cancelPicture
  | sendCommand (cmd arg1 arg2 : CInt)
  | release
  | dump (fd : CInt)
  deriving DecidableEq

/-- A call of the vendor: one of these, one around the parameters, or one the wrapper records. -/
inductive DeviceCall (Text : Type)
  | perform (id : ℤ) (o : DeviceOp)
  | getParameters (id : ℤ)
  | putParameters (id : ℤ)
  | startRecording (id : ℤ)
  | recorded (c : VendorCall Text)

/-- The wrapper, with all calls of the vendor so far, newest first. -/
structure Process (Text : Type) where
  wrapper : Wrapper Text
  calls : List (DeviceCall Text)

/-- What a function of the device gives back: nothing, an `int` or a string. -/
inductive Reply
  | void
  | int (r : CInt)
  | string (p : Option Ptr)
  deriving DecidableEq

section

variable {Text : Type}

/-- One more call of the vendor. -/
def Process.call (s : Process Text) (c : DeviceCall Text) : Process Text :=
  { s with calls := c :: s.calls }

/-- The wrapper has come to `w`; what it recorded on the way was called. -/
def Process.advance (s : Process Text) (w : Wrapper Text) : Process Text :=
  ⟨w, (w.vendorCalls.take (w.vendorCalls.length - s.wrapper.vendorCalls.length)).map .recorded ++
    s.calls⟩

/-! ## Functions that pass a call on -/

/-- `VENDOR_CALL`, behind the test for a device: the vendor returns `ret`. -/
def forward (o : DeviceOp) (absent ret : CInt) (device : Option WrapperCameraDevice)
    (s : Process Text) : CInt × Process Text :=
  match device with
  | none => (absent, s)
  | some device => (ret, s.call (.perform device.id o))

/-- A function that returns an `int`. -/
abbrev IntFunction (Text : Type) :=
  (ret : CInt) → (device : Option WrapperCameraDevice) → Process Text → CInt × Process Text

/-- A function that returns nothing. -/
abbrev VoidFunction (Text : Type) :=
  (device : Option WrapperCameraDevice) → Process Text → Process Text

/-- `camera_set_preview_window` -/
def cameraSetPreviewWindow (window : ℕ) : IntFunction Text :=
  forward (.setPreviewWindow window) (-einval)

/-- `camera_enable_msg_type` -/
def cameraEnableMsgType (msgType : CInt) : VoidFunction Text := fun device s =>
  (forward (.enableMsgType msgType) 0 0 device s).2

/-- `camera_disable_msg_type` -/
def cameraDisableMsgType (msgType : CInt) : VoidFunction Text := fun device s =>
  (forward (.disableMsgType msgType) 0 0 device s).2

/-- `camera_msg_type_enabled` -/
def cameraMsgTypeEnabled (msgType : CInt) : IntFunction Text := forward (.msgTypeEnabled msgType) 0

/-- `camera_start_preview` -/
def cameraStartPreview : IntFunction Text := forward .startPreview (-einval)

/-- `camera_stop_preview` -/
def cameraStopPreview : VoidFunction Text := fun device s => (forward .stopPreview 0 0 device s).2

/-- `camera_preview_enabled` -/
def cameraPreviewEnabled : IntFunction Text := forward .previewEnabled (-einval)

/-- `camera_store_meta_data_in_buffers` -/
def cameraStoreMetaDataInBuffers (enable : CInt) : IntFunction Text :=
  forward (.storeMetaDataInBuffers enable) (-einval)

/-- `camera_stop_recording` -/
def cameraStopRecording : VoidFunction Text := fun device s =>
  (forward .stopRecording 0 0 device s).2

/-- `camera_recording_enabled` -/
def cameraRecordingEnabled : IntFunction Text := forward .recordingEnabled (-einval)

/-- `camera_release_recording_frame` -/
def cameraReleaseRecordingFrame (frame : ℕ) : VoidFunction Text := fun device s =>
  (forward (.releaseRecordingFrame frame) 0 0 device s).2

/-- `camera_auto_focus` -/
def cameraAutoFocus : IntFunction Text := forward .autoFocus (-einval)

/-- `camera_cancel_auto_focus` -/
def cameraCancelAutoFocus : IntFunction Text := forward .cancelAutoFocus (-einval)

/-- `camera_take_picture` -/
def cameraTakePicture : IntFunction Text := forward .takePicture (-einval)

/-- `camera_cancel_picture` -/
def cameraCancelPicture : IntFunction Text := forward .cancelPicture (-einval)

/-- `camera_send_command` -/
def cameraSendCommand (cmd arg1 arg2 : CInt) : IntFunction Text :=
  forward (.sendCommand cmd arg1 arg2) (-einval)

/-- `camera_release` -/
def cameraRelease : VoidFunction Text := fun device s => (forward .release 0 0 device s).2

/-- `camera_dump` -/
def cameraDump (fd : CInt) : IntFunction Text := forward (.dump fd) (-einval)

/-! ## Functions around the parameters -/

/-- `camera_set_callbacks` -/
def Process.cameraSetCallbacks (callbacks : UserCallbacks) : VoidFunction Text := fun device s =>
  s.advance (Camera.cameraSetCallbacks device callbacks s.wrapper)

/-- `camera_set_parameters` -/
def Process.cameraSetParameters (T : ParameterText Text) (params : Text) (ret : CInt)
    (device : Option WrapperCameraDevice) (s : Process Text) :
    Except Fault (CInt × Process Text) := do
  let (ret, w) ← Camera.cameraSetParameters T ret device params s.wrapper
  return (ret, s.advance w)

/-- `camera_get_parameters`: the vendor's string is copied before it is given back. -/
def Process.cameraGetParameters (T : ParameterText Text) (params : Text)
    (device : Option WrapperCameraDevice) (s : Process Text) :
    Except Fault (Option Ptr × Process Text) := do
  match device with
  | none => return (none, s)
  | some device =>
    let s := s.call (.getParameters device.id)
    let fixed ← cameraFixupGetparams T device.id params
    let (tmp, w) := s.wrapper.strdup fixed
    return (some tmp, { s with wrapper := w }.call (.putParameters device.id))

/-- `camera_put_parameters` -/
def Process.cameraPutParameters (params : Option Ptr) (s : Process Text) :
    Except Fault (Process Text) := do
  match params with
  | none => return s
  | some p => return { s with wrapper := ← s.wrapper.free p }

/-- `camera_start_recording`: neither the string it reads nor the one it writes is freed. -/
def Process.cameraStartRecording (T : ParameterText Text) (getVideoSize : Parameters → CInt × CInt)
    (params : Text) (set ret : CInt) (device : Option WrapperCameraDevice) (s : Process Text) :
    Except Fault (CInt × Process Text) := do
  match device with
  | none => return (einval, s)
  | some device =>
    let (settings, s) ← s.cameraGetParameters T params (some device)
    match settings with
    | none => .error .nullString
    | some settings =>
      let parameters := T.unflatten (← s.wrapper.read settings)
      if is4kVideo getVideoSize parameters then
        let parameters := parameters.set keyPreviewFormat pixelFormatNv12Venus
        let (copy, w) := s.wrapper.strdup (T.flatten parameters)
        let text ← w.read copy
        let (_, s) ← { s with wrapper := w }.cameraSetParameters T text set (some device)
        return (ret, s.call (.startRecording device.id))
      else return (ret, s.call (.startRecording device.id))

/-! ## The table of functions -/

/-- A call of a client, with what the vendor answers. -/
inductive Request (Text : Type)
  | op (o : DeviceOp) (ret : CInt)
  | setCallbacks (callbacks : UserCallbacks)
  | setParameters (params : Text) (ret : CInt)
  | getParameters (params : Text)
  | putParameters (params : Option Ptr)
  | startRecording (params : Text) (set ret : CInt)

/-- What an `int` function gives back. -/
def replyInt (x : CInt × Process Text) : Reply × Process Text := (.int x.1, x.2)

/-- The entries of `camera_ops` that pass a call on. -/
def cameraOps (ret : CInt) (device : Option WrapperCameraDevice) (s : Process Text) :
    DeviceOp → Reply × Process Text
  | .setPreviewWindow window => replyInt (cameraSetPreviewWindow window ret device s)
  | .enableMsgType msgType => (.void, cameraEnableMsgType msgType device s)
  | .disableMsgType msgType => (.void, cameraDisableMsgType msgType device s)
  | .msgTypeEnabled msgType => replyInt (cameraMsgTypeEnabled msgType ret device s)
  | .startPreview => replyInt (cameraStartPreview ret device s)
  | .stopPreview => (.void, cameraStopPreview device s)
  | .previewEnabled => replyInt (cameraPreviewEnabled ret device s)
  | .storeMetaDataInBuffers enable => replyInt (cameraStoreMetaDataInBuffers enable ret device s)
  | .stopRecording => (.void, cameraStopRecording device s)
  | .recordingEnabled => replyInt (cameraRecordingEnabled ret device s)
  | .releaseRecordingFrame frame => (.void, cameraReleaseRecordingFrame frame device s)
  | .autoFocus => replyInt (cameraAutoFocus ret device s)
  | .cancelAutoFocus => replyInt (cameraCancelAutoFocus ret device s)
  | .takePicture => replyInt (cameraTakePicture ret device s)
  | .cancelPicture => replyInt (cameraCancelPicture ret device s)
  | .sendCommand cmd arg1 arg2 => replyInt (cameraSendCommand cmd arg1 arg2 ret device s)
  | .release => (.void, cameraRelease device s)
  | .dump fd => replyInt (cameraDump fd ret device s)

/-- A client's call of an open camera. -/
def serve (T : ParameterText Text) (getVideoSize : Parameters → CInt × CInt)
    (device : WrapperCameraDevice) (s : Process Text) :
    Request Text → Except Fault (Reply × Process Text)
  | .op o ret => return cameraOps ret (some device) s o
  | .setCallbacks callbacks => return (.void, s.cameraSetCallbacks callbacks (some device))
  | .setParameters params ret => do
    return replyInt (← s.cameraSetParameters T params ret (some device))
  | .getParameters params => do
    let (p, s) ← s.cameraGetParameters T params (some device)
    return (.string p, s)
  | .putParameters params => do
    return (.void, ← s.cameraPutParameters params)
  | .startRecording params set ret => do
    return replyInt (← s.cameraStartRecording T getVideoSize params set ret (some device))

end

end KlteCommon.Camera
