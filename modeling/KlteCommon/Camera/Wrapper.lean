import Mathlib.Data.Int.Notation
import Mathlib.Data.List.Infix
import Mathlib.Data.Nat.Notation
import Mathlib.Logic.Function.Basic

/-!
# The camera wrapper

`CameraWrapper.cpp`: the parameters that are fixed on their way to and from the vendor's camera, the
process-wide table of the last ones, the callbacks of the user, and the opening and closing of a
wrapped device. Functions that only pass a call on to the vendor are left out.

A string on the heap is never the same address twice, so that a pointer to a freed string can be
told from every other one; what C leaves undefined is a `Fault`. `CameraParameters` is a map of
strings, its text is a parameter.
-/

set_option autoImplicit false

namespace KlteCommon.Camera

/-- A C `int`. -/
abbrev CInt := Int32

/-- The `errno` values the wrapper returns. -/
def enomem : CInt := 12
def einval : CInt := 22

/-! ## Parameters -/

/-- `CameraParameters` -/
abbrev Parameters := String → Option String

/-- `CameraParameters::get`; an empty value counts as none. -/
def Parameters.get (params : Parameters) (key : String) : Option String :=
  (params key).filter (· != "")

/-- `CameraParameters::set` -/
def Parameters.set (params : Parameters) (key value : String) : Parameters :=
  Function.update params key (some value)

/-- `CameraParameters::unflatten` and `CameraParameters::flatten`. -/
structure ParameterText (Text : Type) where
  unflatten : Text → Parameters
  flatten : Parameters → Text

def keyDis : String := "dis"
def disDisable : String := "disable"
def keyZsl : String := "zsl"
def on : String := "on"
def off : String := "off"
def keyPhaseAf : String := "phase-af"
def keyDynamicRangeControl : String := "dynamic-range-control"
def keyQcRtHdr : String := "rt-hdr"
def keyQcVideoHdr : String := "video-hdr"
def keyQcVideoHdrValues : String := "video-hdr-values"
def keyVideoHfrValues : String := "video-hfr-values"
def pixelFormatNv12Venus : String := "nv12-venus"

/-- Keys and values of `CameraParameters`: `KEY_RECORDING_HINT`, `KEY_FLASH_MODE`,
`FLASH_MODE_TORCH`, `KEY_PREVIEW_FORMAT`, `PIXEL_FORMAT_YUV420SP`, `KEY_SUPPORTED_VIDEO_SIZES` and
`KEY_VIDEO_SNAPSHOT_SUPPORTED`. -/
def keyRecordingHint : String := "recording-hint"
def keyFlashMode : String := "flash-mode"
def flashModeTorch : String := "torch"
def keyPreviewFormat : String := "preview-format"
def pixelFormatYuv420sp : String := "yuv420sp"
def keySupportedVideoSizes : String := "video-size-values"
def keyVideoSnapshotSupported : String := "video-snapshot-supported"

def backCameraId : ℤ := 0

/-- The test for torch mode. -/
def isTorch (params : Parameters) : Bool := params.get keyFlashMode == some flashModeTorch

/-- The test for a recording. -/
def isVideo (params : Parameters) : Bool := params.get keyRecordingHint == some "true"

/-- `strstr`, as a test. -/
def strstr (haystack needle : String) : Bool := needle.toList <:+: haystack.toList

/-- What `camera_fixup_getparams` makes of the parameters. -/
def fixupGetparams (id : ℤ) (params : Parameters) : Parameters :=
  let fixed :=
    if params.get keyPreviewFormat == some pixelFormatNv12Venus then
      params.set keyPreviewFormat pixelFormatYuv420sp
    else params
  let fixed :=
    match fixed.get keySupportedVideoSizes with
    | some videoSizeValues => fixed.set keySupportedVideoSizes ("3840x2160," ++ videoSizeValues)
    | none => fixed
  let fixed :=
    match fixed.get keyVideoHfrValues with
    | some hfrModeValues =>
      if !strstr hfrModeValues "off" then fixed.set keyVideoHfrValues (hfrModeValues ++ ",off")
      else fixed
    | none => fixed
  let fixed := if isVideo params then fixed.set keyVideoSnapshotSupported "true" else fixed
  if id = backCameraId then fixed.set keyQcVideoHdrValues "on,off" else fixed

/-- `is_4k_video`; `CameraParameters::getVideoSize` is that of the platform. -/
def is4kVideo (getVideoSize : Parameters → CInt × CInt) (params : Parameters) : Bool :=
  (getVideoSize params).1 * (getVideoSize params).2 == 3840 * 2160

/-- What `camera_fixup_setparams` makes of the parameters; `wasTorch` says that the last ones had
the torch on. -/
def fixupSetparams (id : ℤ) (wasTorch : Bool) (params : Parameters) : Parameters :=
  let fixed :=
    if !isTorch params && !wasTorch then
      if isVideo params then (params.set keyDis disDisable).set keyZsl off
      else params.set keyZsl on
    else params
  if id = backCameraId then
    let fixed := (fixed.set keyPhaseAf on).set keyDynamicRangeControl on
    if isVideo params then
      fixed.set keyQcRtHdr (if fixed.get keyQcVideoHdr == some "on" then on else off)
    else fixed
  else fixed

/-! ## The wrapper's state -/

/-- What C leaves undefined. -/
inductive Fault
  | useAfterFree
  | doubleFree
  | outOfBounds
  | nullTable
  | nullString
  deriving DecidableEq

/-- The address of a string. -/
abbrev Ptr := ℕ

/-- The callbacks of a user and the pointer they are to get; 0 is `NULL`. -/
structure UserCallbacks where
  notifyCb : ℕ
  dataCb : ℕ
  dataCbTimestamp : ℕ
  getMemory : ℕ
  cameraDevice : ℕ
  deriving DecidableEq

/-- A call of the vendor's camera module or of one of its devices. -/
inductive VendorCall (Text : Type)
  | open (id : ℤ) (rv : CInt)
  | setParameters (id : ℤ) (params : Text)
  | setCallbacks (id : ℤ) (user : ℕ)
  | close (id : ℤ)

/-- The process-wide variables, the strings by their addresses (`none` once freed), and the calls of
the vendor, newest first. -/
structure Wrapper (Text : Type) where
  vendorModule : Bool
  user : UserCallbacks
  fixedSetParams : Option (List (Option Ptr))
  strings : List (Option Text)
  vendorCalls : List (VendorCall Text)

/-- `wrapper_camera_device_t`; its vendor device is that of the camera. -/
structure WrapperCameraDevice where
  id : ℤ

/-- The vendor's module: what loading it returns and how many cameras it has. -/
structure VendorModule where
  load : CInt
  numCameras : ℤ

section

variable {Text : Type}

/-- A process that has used no camera yet. -/
def Wrapper.zero : Wrapper Text := ⟨false, ⟨0, 0, 0, 0, 0⟩, none, [], []⟩

namespace Wrapper

variable (s : Wrapper Text)

/-- `fixed_set_params[id]` -/
def entry (id : ℤ) : Except Fault (Option Ptr) :=
  match s.fixedSetParams with
  | none => .error .nullTable
  | some table =>
    if 0 ≤ id then
      match table[id.toNat]? with
      | some p => .ok p
      | none => .error .outOfBounds
    else .error .outOfBounds

/-- `fixed_set_params[id] = p`, where `id` has been read before. -/
def setEntry (id : ℤ) (p : Option Ptr) : Wrapper Text :=
  { s with fixedSetParams := s.fixedSetParams.map (·.set id.toNat p) }

/-- Reading a string. -/
def read (p : Ptr) : Except Fault Text :=
  match s.strings[p]? with
  | some (some text) => .ok text
  | _ => .error .useAfterFree

/-- `free` of a string. -/
def free (p : Ptr) : Except Fault (Wrapper Text) :=
  match s.strings[p]? with
  | some (some _) => .ok { s with strings := s.strings.set p none }
  | _ => .error .doubleFree

/-- `strdup` -/
def strdup (text : Text) : Ptr × Wrapper Text :=
  (s.strings.length, { s with strings := s.strings ++ [some text] })

/-- `if (fixed_set_params[id]) free(fixed_set_params[id]);` -/
def freeEntry (id : ℤ) : Except Fault (Wrapper Text) := do
  match ← s.entry id with
  | some p => s.free p
  | none => return s

/-- A call of the vendor. -/
def vendorCall (c : VendorCall Text) : Wrapper Text := { s with vendorCalls := c :: s.vendorCalls }

end Wrapper

/-! ## Functions of the device -/

/-- `camera_fixup_setparams` -/
def cameraFixupSetparams (T : ParameterText Text) (id : ℤ) (settings : Text) (s : Wrapper Text) :
    Except Fault (Ptr × Wrapper Text) := do
  let params := T.unflatten settings
  let wasTorch ←
    match ← s.entry id with
    | some p => do
      let old ← s.read p
      pure (isTorch (T.unflatten old))
    | none => pure false
  let fixed := fixupSetparams id wasTorch params
  let s ← s.freeEntry id
  let (p, s) := s.strdup (T.flatten fixed)
  return (p, s.setEntry id (some p))

/-- `camera_set_parameters`; the vendor returns `ret`. -/
def cameraSetParameters (T : ParameterText Text) (ret : CInt) (device : Option WrapperCameraDevice)
    (params : Text) (s : Wrapper Text) : Except Fault (CInt × Wrapper Text) := do
  match device with
  | none => return (-einval, s)
  | some device =>
    let (tmp, s) ← cameraFixupSetparams T device.id params s
    let text ← s.read tmp
    return (ret, s.vendorCall (.setParameters device.id text))

/-- `camera_fixup_getparams`; `strcmp` is given the preview format as it is. -/
def cameraFixupGetparams (T : ParameterText Text) (id : ℤ) (settings : Text) : Except Fault Text :=
  let params := T.unflatten settings
  if params.get keyPreviewFormat = none then .error .nullString
  else .ok (T.flatten (fixupGetparams id params))

/-- `camera_get_parameters`; the vendor returns `params`. -/
def cameraGetParameters (T : ParameterText Text) (device : Option WrapperCameraDevice)
    (params : Text) : Except Fault (Option Text) := do
  match device with
  | none => return none
  | some device => return some (← cameraFixupGetparams T device.id params)

/-- `camera_start_recording`; the vendor returns `params` for its parameters, `set` when it is given
new ones and `ret` when it starts. -/
def cameraStartRecording (T : ParameterText Text) (getVideoSize : Parameters → CInt × CInt)
    (params : Text) (set ret : CInt) (device : Option WrapperCameraDevice) (s : Wrapper Text) :
    Except Fault (CInt × Wrapper Text) := do
  match device with
  | none => return (einval, s)
  | some device =>
    let settings ← cameraFixupGetparams T device.id params
    let parameters := T.unflatten settings
    if is4kVideo getVideoSize parameters then
      let parameters := parameters.set keyPreviewFormat pixelFormatNv12Venus
      let (_, s) ← cameraSetParameters T set (some device) (T.flatten parameters) s
      return (ret, s)
    else return (ret, s)

/-- `camera_set_callbacks`; the vendor gets the wrapper's own callbacks and the user's pointer. -/
def cameraSetCallbacks (device : Option WrapperCameraDevice) (callbacks : UserCallbacks)
    (s : Wrapper Text) : Wrapper Text :=
  match device with
  | none => s
  | some device =>
    { s with user := callbacks }.vendorCall (.setCallbacks device.id callbacks.cameraDevice)

/-- A call of one of the user's callbacks: which one, with which arguments and which pointer. -/
structure Invocation (Args : Type) where
  callback : ℕ
  args : Args
  user : ℕ
  deriving DecidableEq

/-- `camera_notify_cb` -/
def cameraNotifyCb (s : Wrapper Text) (args : CInt × CInt × CInt) (_user : ℕ) :
    Invocation (CInt × CInt × CInt) :=
  ⟨s.user.notifyCb, args, s.user.cameraDevice⟩

/-- `camera_data_cb` -/
def cameraDataCb (s : Wrapper Text) (args : CInt × ℕ × UInt32 × ℕ) (_user : ℕ) :
    Invocation (CInt × ℕ × UInt32 × ℕ) :=
  ⟨s.user.dataCb, args, s.user.cameraDevice⟩

/-- `camera_data_cb_timestamp` -/
def cameraDataCbTimestamp (s : Wrapper Text) (args : Int64 × CInt × ℕ × UInt32) (_user : ℕ) :
    Invocation (Int64 × CInt × ℕ × UInt32) :=
  ⟨s.user.dataCbTimestamp, args, s.user.cameraDevice⟩

/-- `camera_get_memory` -/
def cameraGetMemory (s : Wrapper Text) (args : CInt × ℕ × UInt32) (_user : ℕ) :
    Invocation (CInt × ℕ × UInt32) :=
  ⟨s.user.getMemory, args, s.user.cameraDevice⟩

/-! ## Functions of the module -/

/-- `check_vendor_module` -/
def checkVendorModule (v : VendorModule) (s : Wrapper Text) : CInt × Wrapper Text :=
  if s.vendorModule then (0, s)
  else (v.load, { s with vendorModule := v.load == 0 })

/-- `camera_get_number_of_cameras` -/
def cameraGetNumberOfCameras (v : VendorModule) (s : Wrapper Text) : ℤ × Wrapper Text :=
  let (rv, s) := checkVendorModule v s
  if rv ≠ 0 then (0, s) else (v.numCameras, s)

/-- The loop of `camera_device_close`, with `n` cameras left. -/
def freeEntries : ℕ → ℤ → Wrapper Text → Except Fault (Wrapper Text)
  | 0, _, s => return s
  | n + 1, i, s => do
    let s ← s.freeEntry i
    freeEntries n (i + 1) s

/-- `camera_device_close` -/
def cameraDeviceClose (v : VendorModule) (device : Option WrapperCameraDevice) (s : Wrapper Text) :
    Except Fault (CInt × Wrapper Text) := do
  match device with
  | none => return (-einval, s)
  | some device =>
    let (num, s) := cameraGetNumberOfCameras v s
    let s ← freeEntries num.toNat 0 s
    return (0, s.vendorCall (.close device.id))

/-- `isspace` of the C locale: the blank, and `\t`, `\n`, `\v`, `\f` and `\r`. -/
def isSpace (c : Char) : Bool := c == ' ' || (9 ≤ c.toNat && c.toNat ≤ 13)

/-- The largest and the smallest `int`. -/
def intMax : ℤ := 2147483647
def intMin : ℤ := -2147483648

/-- `atoi`; a number that is no `int` comes out as the nearest one. -/
def atoi (name : String) : ℤ :=
  let digits (cs : List Char) : ℤ :=
    (cs.takeWhile Char.isDigit).foldl (fun n c => 10 * n + (c.toNat - '0'.toNat : ℕ)) 0
  let number :=
    match name.toList.dropWhile isSpace with
    | '-' :: cs => -digits cs
    | '+' :: cs => digits cs
    | cs => digits cs
  max intMin (min intMax number)

/-- What the outside does for a call of `camera_device_open`: which allocations succeed and what
the vendor's open returns. -/
structure OpenOutcome where
  table : Bool
  device : Bool
  vendorOpen : CInt
  ops : Bool

/-- `camera_device_open`: the returned code and the new value of `*device`, which was `old`. -/
def cameraDeviceOpen (v : VendorModule) (o : OpenOutcome) (name : Option String)
    (old : Option WrapperCameraDevice) (s : Wrapper Text) :
    CInt × Option WrapperCameraDevice × Wrapper Text :=
  match name with
  | none => (0, old, s)
  | some name =>
    let (rv, s) := checkVendorModule v s
    if rv ≠ 0 then (-einval, old, s)
    else if !o.table then (-enomem, none, { s with fixedSetParams := none })
    else
      let s := { s with fixedSetParams := some (List.replicate v.numCameras.toNat none) }
      if atoi name > v.numCameras then (-einval, none, s)
      else if !o.device then (-enomem, none, s)
      else
        let s := s.vendorCall (.open (atoi name) o.vendorOpen)
        if o.vendorOpen ≠ 0 then (o.vendorOpen, none, s)
        else if !o.ops then (-enomem, none, s)
        else (0, some ⟨atoi name⟩, s)

end

end KlteCommon.Camera
