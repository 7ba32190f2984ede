import KlteCommon.Analysis.LockDiscipline
import KlteCommon.Analysis.Ownership
import KlteCommon.Analysis.Cancellation
import KlteCommon.Analysis.Commit
import KlteCommon.Analysis.Capture
import KlteCommon.Analysis.Outcome
import KlteCommon.Analysis.Release
import KlteCommon.Analysis.Exclusion
import KlteCommon.Analysis.Sha1Conformance
import KlteCommon.Analysis.Agreement
import KlteCommon.Analysis.Isolation
import KlteCommon.Analysis.Identity
import KlteCommon.Analysis.AppHandle
import KlteCommon.Analysis.Authorization
import KlteCommon.Analysis.Startup
import KlteCommon.Analysis.HashedBytes
import KlteCommon.Analysis.CameraTable
import KlteCommon.Analysis.CameraCallbacks
import KlteCommon.Analysis.Soundness
import KlteCommon.Analysis.AuthenticatorId
import KlteCommon.Analysis.FreshChallenge
import KlteCommon.Analysis.Migration
import KlteCommon.Analysis.Uniqueness
import KlteCommon.Analysis.FailedStart
import KlteCommon.Analysis.Removal
import KlteCommon.Analysis.SlotBounds
import KlteCommon.Analysis.Session
import KlteCommon.Analysis.Calibration
import KlteCommon.Analysis.EnrollProgress
import KlteCommon.Analysis.FingerSignal
import KlteCommon.Analysis.Stopping
import KlteCommon.Analysis.Sha1Calls
import KlteCommon.Analysis.CameraParameters
import KlteCommon.Analysis.CameraOpen
import KlteCommon.Analysis.QseecomShim
import KlteCommon.Analysis.RoundTrip
import KlteCommon.Analysis.Overlap
import KlteCommon.Analysis.LockOrder
import KlteCommon.Analysis.CriticalSections
import KlteCommon.Analysis.CameraSession
import KlteCommon.Analysis.MatchAnswer
import KlteCommon.Analysis.ReportedFinger
import KlteCommon.Analysis.OperationId
import KlteCommon.Analysis.LostWakeup
import KlteCommon.Analysis.EnrollTarget
import KlteCommon.Analysis.Vault
