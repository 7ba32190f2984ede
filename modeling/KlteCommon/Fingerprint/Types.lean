import KlteCommon.Computation.System
import Mathlib.Data.Int.Notation

/-!
# The data of the fingerprint HAL

The records of `fingerprint_common.h`, `fingerprint_tz.h` and `fingerprint.c`, the token and the
messages exchanged with the framework, a TrustZone command with its reply, and the two databases.
Pointers, file descriptors and the thread ids nothing reads are left out.
-/

set_option autoImplicit false

namespace KlteCommon.Fingerprint

open KlteCommon.Computation

/-- A C `int`. -/
abbrev CInt := Int32

/-- A fixed-size C `char` array. -/
abbrev Bytes (n : ℕ) := Vector UInt8 n

/-! ## Constants of `fingerprint_common.h` and `fingerprint_tz.h` -/

def authTokenLength : ℕ := 0x70
def authSessionTokenLength : ℕ := 0x20
def calibrateDataMaxLength : ℕ := 0x500c
def fingerDataMaxLength : ℕ := 0x2900
def payloadMaxLength : ℕ := 0x24
def maxNumFingers : ℕ := 5

def fingerprintErrorUnableToProcess : CInt := 2
def fingerprintErrorTimeout : CInt := 3
def fingerprintErrorNoSpace : CInt := 4
def fingerprintErrorCanceled : CInt := 5
def fingerprintErrorUnableToRemove : CInt := 6

/-- `FINGERPRINT_ACQUIRED_GOOD` and `FINGERPRINT_ACQUIRED_INSUFFICIENT` of the framework. -/
def fingerprintAcquiredGood : CInt := 0
def fingerprintAcquiredInsufficient : CInt := 2

/-- `HW_AUTH_TOKEN_VERSION` and `HW_AUTH_FINGERPRINT` of the framework. -/
def hwAuthTokenVersion : UInt8 := 0
def hwAuthFingerprint : UInt32 := 2

/-- The `errno` values the HAL returns or compares with. -/
def eperm : CInt := 1
def einval : CInt := 22
def enomem : CInt := 12
def eprotonosupport : CInt := 93
def etimedout : CInt := 110

/-- The sqlite result codes the HAL compares with. -/
def sqliteOk : CInt := 0
def sqliteRow : CInt := 100
def sqliteDone : CInt := 101

/-! ## Records -/

/-- `worker_state_t` -/
inductive WorkerState
  | stateIdle
  | stateEnroll
  | stateScan
  | stateCancel
  deriving DecidableEq

/-- `finger_t` -/
structure Finger where
  exist : Bool
  data : Bytes fingerDataMaxLength
  payload : Bytes payloadMaxLength

/-- A slot after `memset(.., 0, sizeof(finger_t))`. -/
def Finger.zero : Finger := ⟨false, Vector.replicate _ 0, Vector.replicate _ 0⟩

/-- `timeout_t`; no thread is the handle 0. -/
structure Timeout where
  timeout : UInt32
  timeoutThread : Option Tid

/-- `trust_zone_t`. `qhandle` says whether the handle of a started app is held; the slots are
indexed by any `int`, those outside `1..maxNumFingers` are memory the array does not own. -/
structure TrustZone where
  init : Bool
  state : WorkerState
  qhandle : Bool
  authSessionOpend : Bool
  authToken : Bytes authTokenLength
  authSessionToken : Bytes authSessionTokenLength
  calibrateLen : CInt
  calibrateData : Bytes calibrateDataMaxLength
  finger : ℤ → Finger
  timeout : Timeout

/-- `tz` after `memset(&tz, 0, sizeof(trust_zone_t))`. -/
def TrustZone.zero : TrustZone where
  init := false
  state := .stateIdle
  qhandle := false
  authSessionOpend := false
  authToken := Vector.replicate _ 0
  authSessionToken := Vector.replicate _ 0
  calibrateLen := 0
  calibrateData := Vector.replicate _ 0
  finger := fun _ => .zero
  timeout := ⟨0, none⟩

/-- `vcs_sensor_t` -/
structure Sensor where
  init : Bool
  signal : Bool

/-- `vcs_fingerprint_device_t`; `notify` is the framework's callback, 0 when there is none. -/
structure Device where
  opId : UInt64
  challenge : UInt64
  userId : UInt64
  secureUserId : UInt64
  authenticatorId : UInt64
  activeGid : UInt32
  notify : ℕ

/-- A device fresh from `calloc`. -/
def Device.zero : Device := ⟨0, 0, 0, 0, 0, 0, 0⟩

/-- `hw_auth_token_t` -/
structure HwAuthToken where
  version : UInt8
  challenge : UInt64
  userId : UInt64
  authenticatorId : UInt64
  authenticatorType : UInt32
  timestamp : UInt64
  deriving DecidableEq

/-- `fingerprint_msg_t`, by its type. -/
inductive FingerprintMsg
  | error (error : CInt)
  | acquired (acquiredInfo : CInt)
  | enrolling (fid : ℤ) (samplesRemaining : CInt)
  | authenticated (fid : ℤ) (gid : UInt32) (hat : HwAuthToken)
  | removed (fid : ℤ)
  deriving DecidableEq

/-! ## TrustZone commands -/

/-- The commands of `trust_zone_cmd_id_t` the HAL sends. -/
inductive CmdId
  | vfmInitialize
  | vfmUninitialize
  | vfmDeviceInitialize
  | vfmDeviceCalibrate
  | vfmAuthSessionBegin
  | vfmAuthSessionEnd
  | vfmCaptureStart
  | vfmCaptureReadData
  | vfmCaptureProcessData
  | vfmCaptureAbort
  | vfmEnrollBegin
  | vfmEnrollAddImage
  | vfmEnrollFinish
  | vfmEnrollmentPasswordSet
  | vfmMatchImageToTemplates
  | vfmPayloadBind
  | vfmPayloadRelease
  | vfmVendorDefinedOperation
  deriving DecidableEq

/-- The commands of `trust_zone_vendor_cmd_id_t` the HAL sends. -/
inductive VendorCmdId
  | vendorUnknown0
  | vendorUnknownA
  | vendorGetAuthToken
  | vendorEnterAuthSession
  | vendorUpdateCalData
  deriving DecidableEq

/-- A request in the shared buffer, which is zeroed before it is built: the header words, the
bytes written into `data` at their offsets, and the words preset in the reply's `data`. -/
structure Request where
  cmd : CmdId
  vendorCmd : VendorCmdId := .vendorUnknown0
  len : CInt := 0
  zero : CInt := 0
  unknown : List CInt := []
  timeNow : CInt := 0
  data : List (ℕ × List UInt8) := []
  preset : List (ℕ × CInt) := []

/-- What a command left behind: the transport's return value and the reply buffer, whose words
may hold anything, whatever `ret` says. -/
structure Reply where
  ret : CInt
  result : CInt
  data : ℕ → CInt

/-- Byte `i` of an `int` array, in memory order. -/
def byteOf (w : ℕ → CInt) (i : ℕ) : UInt8 :=
  ((w (i / 4)).toUInt32 >>> (UInt32.ofNat (8 * (i % 4)))).toUInt8

/-- `memcpy` of `n` bytes from `&resp->data[2]`. -/
def Reply.bytes (r : Reply) (n : ℕ) : Bytes n :=
  Vector.ofFn fun i => byteOf (fun j => r.data (2 + j)) i.val

/-- The test `ret || resp->result`. -/
def Reply.failed (r : Reply) : Bool := r.ret != 0 || r.result != 0

/-! ## Databases -/

/-- A row of a `gid_*` table. -/
structure Row where
  id : ℤ
  data : List UInt8
  payload : List UInt8

/-- A `gid_*` table, in the order a `select` returns it. -/
abbrev Table := List Row

/-- `finger.db`: a table for every group that has one. The name is `gid_%d` of the group's id,
so tables are named by signed numbers. -/
structure Database where
  tables : ℤ → Option Table

/-- The number `%d` prints for a group id. -/
def gidNumber (gid : UInt32) : ℤ := gid.toBitVec.toInt

/-- Samsung's `template.db`: the id and the data of each row of `enrollments`, and the payload of
each row of `properties`. -/
structure LegacyDb where
  enrollments : List (ℤ × List UInt8)
  properties : List (List UInt8)

end KlteCommon.Fingerprint
