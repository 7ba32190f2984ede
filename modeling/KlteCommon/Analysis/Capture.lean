import KlteCommon.Computation.Paths
import KlteCommon.Fingerprint.Effects
import KlteCommon.Fingerprint.Loops

/-!
# Images come from captures

A capture is three commands: `vfmCaptureStart`, as many `vfmCaptureReadData` as it takes until the
finger is lifted, and `vfmCaptureProcessData`. `Capture` is how far a thread has got with one,
read off its events. The workers send `vfmMatchImageToTemplates` and `vfmEnrollAddImage` with
what the capture left in TrustZone.

The ladder: the contract of `vcs_start_capture` is that a result other than -1 means a processed
capture (`captureLeaves`), the bodies keep to it as long as a failed `vfmCaptureStart` comes with
transport code -1 (`captureProtocol_valid`), so every image a worker uses was captured
(`imagesCaptured`). A start that TrustZone refuses with transport code 0 is reported as 0, and the
worker goes on to the match (`uncaptured_match`).
-/

set_option autoImplicit false

namespace KlteCommon.Analysis

open KlteCommon.Computation KlteCommon.Fingerprint

/-! ## What is observed -/

/-- How far a capture has got. -/
inductive Capture
  | idle
  | started
  | lifted
  | processed
  deriving DecidableEq

/-- A capture after a command. A processed one is good for the next command only. -/
def Capture.reply (x : Capture) (cmd : CmdId) (r : Reply) : Capture :=
  match cmd, x with
  | .vfmCaptureStart, _ => if r.failed then .idle else .started
  | .vfmCaptureReadData, .started => if r.failed = false ∧ r.data 2 = 2 then .lifted else .started
  | .vfmCaptureProcessData, .lifted => if r.failed then .idle else .processed
  | .vfmCaptureProcessData, _ => .idle
  | _, .processed => .idle
  | _, x => x

/-- A capture after an event; every iteration of the workers' loops begins a new one. -/
def Capture.after (x : Capture) : HalEvent → Capture
  | .op (.qseecomSendCmd req) r => x.reply req.cmd r
  | .enter .vcsAuthenticateLoop | .enter (.vcsEnrollLoop _ _) => .idle
  | _ => x

/-- The capture a thread with these events is in; the newest event comes first. -/
def capture : List HalEvent → Capture
  | [] => .idle
  | e :: es => (capture es).after e

/-- A command that uses the image in TrustZone. -/
def usesImage : HalEvent → Bool
  | .op (.qseecomSendCmd req) _ =>
    req.cmd == .vfmMatchImageToTemplates || req.cmd == .vfmEnrollAddImage
  | _ => false

/-- Every image is used directly after a capture that went well. -/
def ImagesCaptured (es : List HalEvent) : Prop :=
  ∀ later e earlier, es = later ++ e :: earlier → usesImage e = true →
    capture earlier = .processed

/-- The condition on a step: a `vfmCaptureStart` that fails comes with transport code -1. -/
def failsAsLost : HalEvent → Bool
  | .op (.qseecomSendCmd req) r => req.cmd != .vfmCaptureStart || !r.failed || r.ret == -1
  | _ => true

/-! ## The protocol -/

/-- Which procedures a worker calls in which stage of a capture. -/
def captureCalls (x : Capture) : Call → Prop
  | .vcsAuthenticate | .vcsAuthenticateLoop | .vcsEnroll | .vcsEnrollLoop _ _ => True
  | .vcsStartCapture _ => True
  | .vcsUpdateCalData | .vcsCheckState => x = .started
  | .vcsStartCaptureWait | .vcsStartCaptureRead => x = .started
  | .getTzState | .setTzState _ | .sensorCaptureStart | .vcsGetEnrolledFingerNum => True
  | .sendErrorNotice _ | .sendAcquiredNotice _ | .sendEnrollNotice _ _ => True
  | .sendAuthenticatedNotice _ | .dbWriteToDb _ _ => True
  | .sensorUninit | .vcsUninit | .vcsUpdateAuthToken => True
  | _ => False

/-- The stages a procedure may be left in. -/
def captureLeaves (x : Capture) : (c : Call) → Ret c → Capture → Prop
  | .vcsStartCapture _, r, y => r ≠ -1 → y = .processed
  | .vcsStartCaptureRead, r, y => r = 0 → y = .lifted
  | .vcsAuthenticate, _, _ | .vcsAuthenticateLoop, _, _ => True
  | .vcsEnroll, _, _ | .vcsEnrollLoop _ _, _, _ => True
  | .vcsUninit, _, _ | .vcsUpdateAuthToken, _, _ => True
  | _, _, y => y = x

/-- The protocol of the workers: an image is used in the last stage of a capture only. -/
@[simps] def captureProtocol : Protocol Resp Ret Capture where
  assume _ e := failsAsLost e = true
  next x e := if usesImage e = true ∧ x ≠ .processed then none else some (x.after e)
  pre c x := captureCalls x c
  post c x r y := captureLeaves x c r y

section

variable (x y : Capture) (c : Call) (r : Ret c) (o : Op) (a : Resp o) (e : HalEvent)

/-- A call by its contract, behind its entry. -/
@[simp ↓] theorem callRule_capture (Q : Ret c → Capture → Prop) :
    captureProtocol.callRule fine c Q x ↔ captureCalls (x.after (.enter c)) c ∧
      ∀ r y, captureLeaves (x.after (.enter c)) c r y → Q r y := by
  simp [Protocol.callRule, fine, captureProtocol, usesImage, failsAsLost]

end

/-! ## The bodies keep to it -/

section bodies

attribute [local simp ↓] load store op call send ionSbuffer sameIonSbuffer

attribute [local simp] captureCalls captureLeaves usesImage failsAsLost Capture.after Capture.reply

/-- Code that only reads the slots keeps the stage. -/
theorem capture_readsSlot {α : Type} {p : Code α} {Q : α → Capture → Prop} {x : Capture}
    (hp : p.Within Op.readsSlot fun _ => False) (hQ : ∀ a, Q a x) :
    captureProtocol.Follows fine p Q x := by
  refine .frame hp (fun o ho r => ?_) hQ
  cases o <;> first | rfl | cases ho

/-- Every body keeps to the contracts. -/
theorem captureProtocol_valid : captureProtocol.Valid fine body := by
  intro c _ x hx
  cases c
  all_goals simp at hx
  case getTzState => simp [body, getTzState]
  case setTzState => simp [body, setTzState]
  case vcsUpdateCalData => simp [body, vcsUpdateCalData, hx]
  case vcsCheckState => simp [body, vcsCheckState, hx]
  case vcsStartCapture =>
    simp [body, vcsStartCapture]
    intro r hr
    obtain hr | hr := hr
    · simp [hr]
      intro _ y hy hlifted now resp hret hresult
      simp [hy hlifted, Reply.failed, hret, hresult]
    · simp [Reply.failed, hr]
  case vcsStartCaptureWait => simp [body, vcsStartCaptureWait, hx]
  case vcsStartCaptureRead =>
    simp [body, vcsStartCaptureRead, hx]
    intro r
    by_cases hr : r.failed = true
    · simp [hr]
    · by_cases hlifted : r.data 2 = 2 <;> simp [hr, hlifted]
  case vcsAuthenticate => simp [body, vcsAuthenticate]
  case vcsAuthenticateLoop =>
    simp [body, vcsAuthenticateLoop]
    intro _ y hy hr _ _
    obtain rfl := hy hr
    refine capture_readsSlot (matchTemplates_within ..) fun _ => ?_
    simp
    intro _ _ _
    exact capture_readsSlot (findMatched_within ..) fun _ => by simp
  case vcsEnroll =>
    refine .bind (follows_ionSbuffer (fun _ => rfl) (fun _ => rfl) ?_)
    refine .bind (capture_readsSlot (firstFreeSlot_within ..) fun _ => ?_)
    simp [vcsEnrollCommit, payloadBind, enrollmentPasswordSet]
  case vcsEnrollLoop =>
    simp [body, vcsEnrollLoop]
    intro _ y hy hr _
    simp [hy hr]
  case vcsGetEnrolledFingerNum =>
    exact capture_readsSlot (countFingers_within ..) fun num => by simp
  case vcsUpdateAuthToken => simp [body, vcsUpdateAuthToken, getAuthToken]
  case vcsUninit => simp [body, vcsUninit]
  case sensorUninit => simp [body, sensorUninit]
  case sensorCaptureStart => simp [body, sensorCaptureStart]
  case dbWriteToDb => simp [body, dbWriteToDb]
  case sendErrorNotice => simp [body, sendErrorNotice]
  case sendAcquiredNotice => simp [body, sendAcquiredNotice]
  case sendEnrollNotice => simp [body, sendEnrollNotice]
  case sendAuthenticatedNotice => simp [body, sendAuthenticatedNotice]

end bodies

/-! ## Every run -/

/-- The stage of the protocol is the capture its events lead to. -/
theorem capture_of_stage {es : List HalEvent} {y : Capture}
    (h : captureProtocol.stage .idle es = some y) : y = capture es := by
  induction es generalizing y with
  | nil => simpa [Protocol.stage, capture] using h.symm
  | cons e es ih =>
    obtain ⟨x, hx, hy⟩ := Option.bind_eq_some_iff.mp h
    obtain rfl := ih hx
    simp only [captureProtocol_next] at hy
    split at hy <;> cases hy
    rfl

/-- Whoever keeps to the protocol has captured its images. -/
theorem imagesCaptured_of_stage {es : List HalEvent} {y : Capture}
    (h : captureProtocol.stage .idle es = some y) : ImagesCaptured es := by
  rintro later e earlier rfl he
  obtain ⟨x, z, hx, hz⟩ := Protocol.stage_split h
  obtain rfl := capture_of_stage hx
  by_contra hne
  simp [he, hne] at hz

/-- The two workers that use images. -/
def imageWorker : Call → Bool
  | .vcsAuthenticate | .vcsEnroll => true
  | _ => false

/-- **A failed capture is never used as an image.** In every run, whatever threads it has, in
which no `vfmCaptureStart` fails with another transport code than -1, every image a worker uses
was captured. -/
theorem imagesCaptured {m : Mem} {arrives : Call → Bool} {s : Hal} {t : Tid} {c : Call}
    (hc : imageWorker c = true) (ht : s.entry t = some c)
    (h : (Hal.idle m).Reaches fine arrives (fun _ _ e => failsAsLost e = true) s) :
    ImagesCaptured (s.own t) := by
  have hstart : captureProtocol.Follows fine (.call c .ret) (fun _ _ => True) .idle := by
    cases c <;> first | cases hc; done | simp [captureCalls]
  obtain ⟨⟨d, p⟩, hp, rfl⟩ := Option.map_eq_some_iff.mp ht
  obtain ⟨y, hy, -⟩ := h.follows captureProtocol_valid hstart (fun _ _ he => he)
    (fun _ _ _ _ he => he) (fun _ => rfl) rfl hp
  exact imagesCaptured_of_stage hy

/-- A device that has been told to scan, with the app up. -/
def scanningDevice : Mem :=
  { Mem.started with tz := { Mem.started.tz with state := .stateScan } }

/-- An authentication with one image, which the signal handler lets the worker take. -/
theorem imagesCaptured_match :
    ∃ s, (Hal.idle scanningDevice).Reaches fine (fun _ => true)
      (fun _ _ e => failsAsLost e = true) s ∧ (s.own 1).any usesImage = true ∧
      ImagesCaptured (s.own 1) := by
  obtain ⟨s, hs, hentry, huses⟩ : ∃ s, (Hal.idle scanningDevice).exec fine (fun _ => true)
      (fun _ _ e => failsAsLost e)
      (.arrive 1 .vcsAuthenticate :: ticks 1 2 ++ answer 1 (.good 0) ++ ticks 1 7 ++
        answer 1 (.good 0) ++ ticks 1 2 ++ answer 1 .lost ++ ticks 1 4 ++
        .arrive 2 .sensorProcessSignal :: ticks 2 15 ++ ticks 1 40 ++ answer 1 (.good 2) ++
        ticks 1 2 ++ answer 1 (.good 0) ++ ticks 1 13 ++ answer 1 (.good 0)) = some s ∧
      s.entry 1 = some .vcsAuthenticate ∧ (s.own 1).any usesImage = true := ⟨_, rfl, rfl, rfl⟩
  have hr := State.Reaches.refl.exec (fun _ _ _ h => h) hs
  exact ⟨s, hr, huses, imagesCaptured rfl hentry hr⟩

/-- TrustZone refuses the capture with result 5 and transport code 0: the worker sends the match
all the same. -/
theorem uncaptured_match :
    ∃ s, (Hal.idle scanningDevice).Reaches fine (fun _ => true) (fun _ _ _ => True) s ∧
      s.entry 1 = some .vcsAuthenticate ∧ ¬ ImagesCaptured (s.own 1) := by
  obtain ⟨s, hs, hentry, e, es, hown, huses, hidle⟩ : ∃ s,
      (Hal.idle scanningDevice).exec fine (fun _ => true) (fun _ _ _ => true)
        (.arrive 1 .vcsAuthenticate :: ticks 1 2 ++ answer 1 (.good 0) ++ ticks 1 7 ++
          answer 1 ⟨0, 5, fun _ => 0⟩ ++ ticks 1 13 ++ answer 1 (.good 0)) = some s ∧
      s.entry 1 = some .vcsAuthenticate ∧
      ∃ e es, s.own 1 = e :: es ∧ usesImage e = true ∧ capture es = .idle :=
    ⟨_, rfl, rfl, _, _, rfl, rfl, rfl⟩
  refine ⟨s, State.Reaches.refl.exec (fun _ _ _ _ => trivial) hs, hentry, fun h => ?_⟩
  cases hidle.symm.trans (h [] e es hown huses)

end KlteCommon.Analysis
