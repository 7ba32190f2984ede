import KlteCommon.Computation.Paths
import KlteCommon.Fingerprint.Effects
import KlteCommon.Fingerprint.Loops

/-!
# A start that fails

`vcs_start_authenticate` and `vcs_start_enroll` claim `tz.state` first, then power the sensor up,
start the app and create the worker; each of these steps may fail, and every failure returns at
once. `fingerprint_enroll` stores what the token says about the user before it has made all its
tests, and then calls the second of the two.

The ladder: what a call has done so far is a fold of its events (`Launch`); the bodies keep to the
protocol of these folds (`launchProtocol_valid`). So a start is left with its own state in
`tz.state` (`start_alone`), and a failed one leaves the HAL idle only if it did not fail
(`leftIdle_iff`); and an enrollment that was rejected has no effect exactly when the token names
the user who is stored, or a start does not fail (`noEffect_iff`).
-/

set_option autoImplicit false

namespace KlteCommon.Analysis

open KlteCommon.Computation KlteCommon.Fingerprint

/-! ## What is observed -/

/-- The two starts. -/
inductive Start
  | authenticate
  | enroll (timeout : UInt32)

/-- The code of a start. -/
def Start.code : Start → Code CInt
  | .authenticate => vcsStartAuthenticate
  | .enroll timeout => vcsStartEnroll timeout

/-- The state a start claims. -/
def Start.state : Start → WorkerState
  | .authenticate => .stateScan
  | .enroll _ => .stateEnroll

/-- A worker is created. -/
def launchesWorker : HalEvent → Bool
  | .op (.pthreadCreate .vcsTimeout) _ => false
  | .op (.pthreadCreate _) r => r.toBool
  | _ => false

/-- A call outside the HAL fails, so that no worker is created. The answer to
`vendorEnterAuthSession` counts by its result, every other one by the transport's return value. -/
def failsWorker : HalEvent → Bool
  | .op .qseecomStartApp r | .op (.qseecomSetBandwidth _) r => r != 0
  | .op (.qseecomSendCmd req) r =>
    if req.vendorCmd = .vendorEnterAuthSession then r.result != 0 else r.ret != 0
  | .op (.pthreadCreate .vcsTimeout) _ => false
  | .op (.pthreadCreate _) r => !r.toBool
  | _ => false

/-- The timer of an enrollment cannot be created. -/
def failsTimer : HalEvent → Bool
  | .op (.pthreadCreate .vcsTimeout) r => !r.toBool
  | _ => false

/-- The HAL is idle after these events of a start: no worker was created, the state is
`STATE_IDLE`, the sensor is off and the app is not running. -/
structure LeftIdle (es : List HalEvent) (m : Mem) : Prop where
  worker : es.any launchesWorker = false
  state : m.tz.state = .stateIdle
  sensor : m.sensor.init = false
  app : m.tz.init = false

/-- The device, the slots and the state are what they were. -/
structure NoEffect (m m' : Mem) : Prop where
  secureUserId : m'.vdev.secureUserId = m.vdev.secureUserId
  userId : m'.vdev.userId = m.vdev.userId
  opId : m'.vdev.opId = m.vdev.opId
  challenge : m'.vdev.challenge = m.vdev.challenge
  finger : m'.tz.finger = m.tz.finger
  state : m'.tz.state = m.tz.state

/-- All slots of `1..MAX_NUM_FINGERS` are occupied. -/
def noSlot (exist : ℤ → Bool) : Prop := ∀ j, 1 ≤ j → j < 1 + (maxNumFingers : ℤ) → exist j = true

/-- A token passes the tests of `fingerprint_enroll`. -/
def passes (m : Mem) (h : HwAuthToken) : Prop :=
  h.version = hwAuthTokenVersion ∧
    (h.challenge = m.vdev.challenge ∨ h.authenticatorType &&& hwAuthFingerprint ≠ 0)

instance (m : Mem) (h : HwAuthToken) : Decidable (passes m h) := inferInstanceAs (Decidable (_ ∧ _))

/-- The request gets as far as the start of a worker. -/
def reachesStart (m : Mem) (h : HwAuthToken) : Prop :=
  passes m h ∧ (¬ noSlot fun j => (m.tz.finger j).exist) ∧ m.tz.state = .stateIdle

/-- The condition on a request: one that reaches the start does not fail there; any other one
names the secure user who is stored, if its challenge is the device's, and the stored user, if it
passes the tests. -/
def Harmless (m : Mem) (es : List HalEvent) (h : HwAuthToken) : Prop :=
  (reachesStart m h → es.any failsWorker = false) ∧
    (¬ reachesStart m h →
      (h.challenge = m.vdev.challenge → h.userId = m.vdev.secureUserId) ∧
        (passes m h → h.userId = m.vdev.userId))

/-! ## The protocol -/

/-- What a call has done: the state and the device it left, whether something outside failed
before there was a worker, or for the timer, and whether a worker was created. -/
structure Launch where
  state : WorkerState
  vdev : Device
  failed : Bool
  timerFailed : Bool
  worker : Bool

/-- The operations of a call: it leaves the slots and the databases alone. -/
def launchOp : Op → Bool
  | .pthreadCreate _ => true
  | o => o.quiet

/-- One event. -/
def Launch.after (x : Launch) : HalEvent → Option Launch
  | .op o r =>
    if launchOp o then
      some
        { state := stateAfter x.state o
          vdev := vdevAfter x.vdev o
          failed := x.failed || failsWorker (.op o r)
          timerFailed := x.timerFailed || failsTimer (.op o r)
          worker := x.worker || launchesWorker (.op o r) }
    else none
  | .enter _ => some x
  | .done _ _ => none

/-- What the reads return, and an error of `pthread_create`. -/
def launchReads (exist : ℤ → Bool) (x : Launch) : HalEvent → Prop
  | .op (.load .tzState) r => r = x.state
  | .op (.load .challenge) r => r = x.vdev.challenge
  | .op (.load (.fingerExist idx)) r => r = exist idx
  | .op (.pthreadCreate _) (.error ret) => ret ≠ 0
  | _ => True

/-- The procedures that take part. -/
def launchCalls (x : Launch) : Call → Prop
  | .getTzState | .setTzState _ | .sensorInit | .sendErrorNotice _ => True
  | .vcsInit | .vcsResume => x.failed = false
  | .vcsStartEnroll _ => x.failed = false ∧ x.timerFailed = false ∧ x.worker = false
  | _ => False

/-- What a start leaves. -/
structure Launched (x : Launch) (state : WorkerState) (r : CInt) (y : Launch) : Prop where
  state : y.state = state
  vdev : y.vdev = x.vdev
  success : r = 0 ↔ y.failed = false ∧ y.timerFailed = false
  worker : y.worker = !y.failed

/-- What the procedures leave. -/
def launchLeaves (x : Launch) : (c : Call) → Ret c → Launch → Prop
  | .getTzState, r, y => r = x.state ∧ y = x
  | .setTzState state, _, y => y = { x with state }
  | .vcsInit, r, y | .vcsResume, r, y => ∃ failed, y = { x with failed } ∧ (r = 0 ↔ failed = false)
  | .vcsStartEnroll _, r, y =>
    if x.state = .stateIdle then Launched x .stateEnroll r y else r = -1 ∧ y = x
  | _, _, y => y = x

/-- The protocol of a call that finds the slots `exist`. -/
@[simps] def launchProtocol (exist : ℤ → Bool) : Protocol Resp Ret Launch where
  assume x e := launchReads exist x e
  next x e := x.after e
  pre c x := launchCalls x c
  post c x r y := launchLeaves x c r y

section

variable (exist : ℤ → Bool) (x y : Launch) (c : Call) (r : Ret c) (e : HalEvent)

/-- A call by its contract. -/
@[simp ↓] theorem callRule_launch (Q : Ret c → Launch → Prop) :
    (launchProtocol exist).callRule fine c Q x ↔
      launchCalls x c ∧ ∀ r y, launchLeaves x c r y → Q r y :=
  Protocol.callRule_entered rfl trivial rfl

end

section bodies

attribute [local simp ↓] load store op call send ionSbuffer sameIonSbuffer

attribute [local simp] launchCalls launchLeaves launchReads Launch.after launchOp stateAfter vdevAfter
  failsWorker failsTimer launchesWorker Op.quiet

variable {exist : ℤ → Bool}

/-- The last commands of `vcs_resume`: the transport value of the last one sent is the result. -/
theorem launch_deviceResume {x : Launch} {Q : CInt → Launch → Prop} (hx : x.failed = false)
    (hQ : ∀ r failed, (r = 0 ↔ failed = false) → Q r { x with failed }) :
    (launchProtocol exist).Follows fine deviceResume Q x := by
  simp [deviceResume, hx]
  intro r
  refine ⟨fun _ => hQ _ _ (by simp), fun hgood _ _ r' => ?_⟩
  obtain ⟨hret, -⟩ : r.ret = 0 ∧ r.result = 0 := by simpa [Reply.failed] using hgood
  exact ⟨fun _ => hQ _ _ (by simp [hret]), fun _ => hQ _ _ (by simp [hret])⟩

/-- Every body keeps to the contracts. -/
theorem launchProtocol_valid : (launchProtocol exist).Valid fine body := by
  intro c _ x hx
  cases c
  all_goals simp at hx
  case getTzState => simp [body, getTzState]
  case setTzState => simp [body, setTzState]
  case sensorInit => simp [body, sensorInit]
  case sendErrorNotice => simp [body, sendErrorNotice]
  case vcsResume =>
    simp [body, vcsResume, hx]
    intro r hgood
    obtain ⟨hret, -⟩ : r.ret = 0 ∧ r.result = 0 := by simpa [Reply.failed] using hgood
    refine ⟨launch_deviceResume (by simp [hret]) fun _ failed h => ⟨failed, rfl, h⟩, fun _ r' => ?_⟩
    refine ⟨fun _ _ => hret, fun hgood => ?_⟩
    obtain ⟨-, hresult⟩ : r'.ret = 0 ∧ r'.result = 0 := by simpa [Reply.failed] using hgood
    exact launch_deviceResume (by simp [hret, hresult]) fun _ failed h => ⟨failed, rfl, h⟩
  case vcsInit => simp [body, vcsInit, hx]
  case vcsStartEnroll timeout =>
    obtain ⟨hfailed, htimer, hworker⟩ := hx
    simp [body, vcsStartEnroll, hfailed, htimer, hworker]
    refine ⟨fun hidle ret y hinit => ?_, fun hbusy => by simp [hbusy]⟩
    obtain ⟨rfl, rfl⟩ | ⟨rfl, hret⟩ := hinit
    · refine ⟨fun _ => ?_, fun h => absurd rfl h⟩
      rintro (ret | t)
      · simp [hidle, Except.toBool]
        exact fun hret => ⟨rfl, rfl, by simpa using hret, rfl⟩
      · simp [Except.toBool]
        refine ⟨fun _ => ?_, fun _ => ?_⟩
        · exact ⟨hidle, rfl, rfl, by simp, rfl⟩
        · rintro (ret | u)
          · simp [hidle]
            exact fun hret => ⟨rfl, rfl, by simpa using hret, rfl⟩
          · simp [hidle]
            exact ⟨rfl, rfl, by simp, rfl⟩
    · refine ⟨fun h => absurd h hret, fun _ => ?_⟩
      rw [if_pos hidle]
      exact ⟨rfl, rfl, by simpa using hret, rfl⟩

/-- In `STATE_IDLE` nobody waits for it. -/
theorem launch_awaitIdle {x : Launch} {n : ℕ} {Q : Bool → Launch → Prop}
    (hidle : x.state = .stateIdle) (hQ : Q false x) :
    (launchProtocol exist).Follows fine (awaitIdle n) Q x := by
  induction n with
  | zero => exact hQ
  | succ n ih =>
    simp [awaitIdle, hidle]
    exact ih

/-- `vcs_start_authenticate` in `STATE_IDLE`. -/
theorem launch_authenticate {x : Launch} (hidle : x.state = .stateIdle) (hfailed : x.failed = false)
    (htimer : x.timerFailed = false) (hworker : x.worker = false) :
    (launchProtocol exist).Follows fine vcsStartAuthenticate (Launched x .stateScan) x := by
  refine .bind (launch_awaitIdle hidle ?_)
  simp [hfailed, htimer, hworker]
  rintro ret y (⟨rfl, rfl⟩ | ⟨rfl, hret⟩)
  · refine ⟨fun _ => ?_, fun h => absurd rfl h⟩
    rintro (ret | t)
    · simp [Except.toBool]
      exact fun hret => ⟨rfl, rfl, by simpa using hret, rfl⟩
    · simp [Except.toBool]
      exact ⟨rfl, rfl, by simp, rfl⟩
  · exact ⟨fun h => absurd h hret, fun _ => ⟨rfl, rfl, by simpa using hret, rfl⟩⟩

/-- The start of either worker in `STATE_IDLE`. -/
theorem launch_start (a : Start) {x : Launch} (hidle : x.state = .stateIdle)
    (hfailed : x.failed = false) (htimer : x.timerFailed = false) (hworker : x.worker = false) :
    (launchProtocol exist).Follows fine a.code (Launched x a.state) x := by
  cases a with
  | authenticate => exact launch_authenticate hidle hfailed htimer hworker
  | enroll timeout =>
    refine (launchProtocol_valid (.vcsStartEnroll timeout) rfl x ⟨hfailed, htimer, hworker⟩).mono ?_
    intro r y hy
    rwa [launchProtocol_post, launchLeaves, if_pos hidle] at hy

/-- A call that has done nothing. -/
def Launch.none (m : Mem) : Launch := ⟨m.tz.state, m.vdev, false, false, false⟩

/-- The device after the token of a request was looked at. -/
def tokenStored (m : Mem) (h : HwAuthToken) : Device :=
  { m.vdev with
    secureUserId := if h.challenge = m.vdev.challenge then h.userId else m.vdev.secureUserId
    userId := if passes m h then h.userId else m.vdev.userId }

/-- What an enrollment request leaves: the device, and a start if it gets there. -/
structure Requested (m : Mem) (h : HwAuthToken) (y : Launch) : Prop where
  vdev : y.vdev = tokenStored m h
  started : reachesStart m h → y.state = .stateEnroll ∧ y.worker = !y.failed
  rejected : ¬ reachesStart m h → y.state = m.tz.state ∧ y.worker = false

/-- What follows the tests of the token. -/
theorem launch_slot {m : Mem} {h : HwAuthToken} (timeout : UInt32) (hpass : passes m h) :
    (launchProtocol fun j => (m.tz.finger j).exist).Follows fine
      (do
        let idx ← findFreeSlot
        if idx > maxNumFingers then
          call (.sendErrorNotice fingerprintErrorNoSpace)
          op (.unlock .vdevLock)
          return -1
        let ret ← call (.vcsStartEnroll timeout)
        op (.unlock .vdevLock)
        return ret)
      (fun _ y => Requested m h y) ⟨m.tz.state, tokenStored m h, false, false, false⟩ := by
  refine .bind (follows_firstFreeSlot _ _ (fun j r hr => ⟨hr, by simp⟩) (fun j hle hlt hfree => ?_)
    fun hfull => ?_)
  · have hslot : ¬ noSlot fun j => (m.tz.finger j).exist := fun hnone => by
      simp [hnone j hle hlt] at hfree
    have hidx : ¬ (maxNumFingers : ℤ) < j := by omega
    simp [hidx]
    by_cases hidle : m.tz.state = .stateIdle
    · simp only [if_pos hidle]
      intro r y hy
      refine ⟨hy.vdev, fun _ => ⟨hy.state, hy.worker⟩, fun h => absurd ⟨hpass, hslot, hidle⟩ h⟩
    · simp only [if_neg hidle]
      rintro r y ⟨-, rfl⟩
      exact ⟨rfl, fun h => absurd h.2.2 hidle, fun _ => ⟨rfl, rfl⟩⟩
  · have hidx : (maxNumFingers : ℤ) < 1 + maxNumFingers := by omega
    simp [hidx]
    exact ⟨rfl, fun h => absurd hfull h.2.1, fun _ => ⟨rfl, rfl⟩⟩

/-- `fingerprint_enroll` with a token. -/
theorem launch_enroll {m : Mem} {h : HwAuthToken} {timeout : UInt32} :
    (launchProtocol fun j => (m.tz.finger j).exist).Follows fine (fingerprintEnroll (some h) timeout)
      (fun _ y => Requested m h y) (.none m) := by
  have hreject : ∀ {vdev : Device}, vdev = tokenStored m h → ¬ passes m h →
      Requested m h ⟨m.tz.state, vdev, false, false, false⟩ :=
    fun hvdev hnot => ⟨hvdev, fun h => absurd h.1 hnot, fun _ => ⟨rfl, rfl⟩⟩
  simp only [fingerprintEnroll, Launch.none]
  by_cases hmatch : h.challenge = m.vdev.challenge
  · by_cases hversion : h.version = hwAuthTokenVersion
    · have hpass : passes m h := ⟨hversion, .inl hmatch⟩
      have hslot := launch_slot timeout hpass
      simp [hmatch, hversion, tokenStored, hpass] at hslot ⊢
      exact hslot
    · have hnot : ¬ passes m h := fun h => hversion h.1
      simp [hmatch, hversion]
      exact hreject (by simp [tokenStored, hmatch, hnot]) hnot
  · by_cases hversion : h.version = hwAuthTokenVersion
    · by_cases hbit : h.authenticatorType &&& hwAuthFingerprint = 0
      · have hnot : ¬ passes m h := fun h => h.2.elim hmatch (absurd hbit)
        simp [hmatch, hversion, hbit]
        exact hreject (by simp [tokenStored, hmatch, hnot]) hnot
      · have hpass : passes m h := ⟨hversion, .inr hbit⟩
        have hslot := launch_slot timeout hpass
        simp [hmatch, hversion, hbit, tokenStored, hpass] at hslot ⊢
        exact hslot
    · have hnot : ¬ passes m h := fun h => hversion h.1
      simp [hmatch, hversion]
      exact hreject (by simp [tokenStored, hmatch, hnot]) hnot

end bodies

/-! ## A call that runs alone -/

section alone

variable {fin : Tid → Bool} {t : Tid} {chs : List Choice} {m m' : Mem} {es : List HalEvent}

/-- A stage describes what a call that found the slots `finger` left. -/
structure Launches (finger : ℤ → Finger) (x : Launch) (m : Mem) : Prop where
  state : m.tz.state = x.state
  vdev : m.vdev = x.vdev
  finger : m.tz.finger = finger

/-- A start leaves the slots as they are. -/
theorem fingerAfter_of_launchOp {o : Op} (ho : launchOp o = true) (old : ℤ → Finger) :
    fingerAfter old o = old := by
  unfold launchOp at ho
  split at ho
  · rfl
  · exact fingerAfter_of_quiet ho old

/-- One operation. -/
theorem launches_act {finger : ℤ → Finger} {x : Launch} {o : Op} {ch : Choice} {r : Resp o}
    (hx : Launches finger x m) (h : act fin t o ch m = some (r, m')) :
    launchReads (fun j => (finger j).exist) x (.op o r) ∧
      ∀ y, x.after (.op o r) = some y → Launches finger y m' := by
  have heff := act_effect h
  refine ⟨?_, fun y hy => ?_⟩
  · cases o with
    | load v =>
      obtain ⟨rfl, -⟩ := by simpa [act] using h
      cases v with
      | tzState => exact hx.state
      | challenge => exact congrArg Device.challenge hx.vdev
      | fingerExist idx => exact congrArg Finger.exist (congrFun hx.finger idx)
      | _ => trivial
    | pthreadCreate w =>
      cases r with
      | ok u => trivial
      | error ret =>
        cases ch <;> simp [act] at h <;> exact h.2.1 ▸ h.1
    | _ => trivial
  · simp only [Launch.after] at hy
    split at hy
    · rename_i ho
      cases hy
      exact ⟨by rw [heff.state, hx.state], by rw [heff.vdev, hx.vdev],
        by rw [heff.finger, hx.finger, fingerAfter_of_launchOp ho]⟩
    · cases hy

/-- What the fold has counted. -/
theorem launch_of_stage {exist : ℤ → Bool} {y : Launch} {es : List HalEvent}
    (h : (launchProtocol exist).stage (.none m) es = some y) :
    y.failed = es.any failsWorker ∧ y.timerFailed = es.any failsTimer ∧
      y.worker = es.any launchesWorker := by
  induction es generalizing y with
  | nil =>
    cases h
    exact ⟨rfl, rfl, rfl⟩
  | cons e es ih =>
    obtain ⟨x, hx, hy⟩ := Option.bind_eq_some_iff.mp h
    obtain ⟨hfailed, htimer, hworker⟩ := ih hx
    cases e with
    | op o r =>
      simp only [launchProtocol_next, Launch.after] at hy
      split at hy
      · cases hy
        simp [hfailed, htimer, hworker, Bool.or_comm]
      · cases hy
    | enter c =>
      cases hy
      simp [hfailed, htimer, hworker, failsWorker, failsTimer, launchesWorker]
    | done c r => cases hy

/-- A call that runs alone leaves what its protocol says. -/
theorem launch_alone {α : Type} {p : Code α} {Q : α → Launch → Prop} {r : α}
    (hp : (launchProtocol fun j => (m.tz.finger j).exist).Follows fine p Q (.none m))
    (h : hal.solo fin t chs p m = some (es, .ret r, m')) :
    ∃ y, Q r y ∧ Launches m.tz.finger y m' ∧ y.failed = es.any failsWorker ∧
      y.timerFailed = es.any failsTimer ∧ y.worker = es.any launchesWorker := by
  obtain ⟨y, hy, hQ, hm'⟩ := hp.alone (J := Launches m.tz.finger) (X := fun _ => True) (fun _ => rfl)
    launchProtocol_valid (fun x m o ch r m' hx hact _ => launches_act hx hact)
    (fun x m c hx => ⟨trivial, fun y hy => by cases hy; exact hx⟩) ⟨rfl, rfl, rfl⟩
    (fun _ _ => trivial) h
  obtain ⟨hfailed, htimer, hworker⟩ := launch_of_stage hy
  rw [List.any_reverse] at hfailed htimer hworker
  exact ⟨y, hQ, hm', hfailed, htimer, hworker⟩

/-- **A start.** It reports a failure exactly if something outside failed, and its state stays in
`tz.state` in any case. -/
theorem start_alone {a : Start} {ret : CInt} (hidle : m.tz.state = .stateIdle)
    (h : hal.solo fin t chs a.code m = some (es, .ret ret, m')) :
    m'.tz.state = a.state ∧ (ret = 0 ↔ es.any failsWorker = false ∧ es.any failsTimer = false) ∧
      es.any launchesWorker = !es.any failsWorker := by
  obtain ⟨y, hy, hm', hfailed, htimer, hworker⟩ := launch_alone (launch_start a hidle rfl rfl rfl) h
  rw [← hfailed, ← htimer, ← hworker]
  exact ⟨hm'.state.trans hy.state, hy.success, hy.worker⟩

/-- **A failed start leaves the HAL idle** exactly when nothing outside failed, so that it is not
one. -/
theorem leftIdle_iff {a : Start} {ret : CInt} (hidle : m.tz.state = .stateIdle)
    (h : hal.solo fin t chs a.code m = some (es, .ret ret, m')) :
    (ret ≠ 0 → LeftIdle es m') ↔ es.any failsWorker = false ∧ es.any failsTimer = false := by
  obtain ⟨hstate, hret, -⟩ := start_alone hidle h
  rw [← hret]
  refine ⟨fun hleft => ?_, fun hzero hne => absurd hzero hne⟩
  by_contra hne
  have hstill := (hleft hne).state
  rw [hstate] at hstill
  cases a <;> cases hstill

end alone

/-- A thread that authenticates while the app does not start. -/
def appMissing : List Choice := List.replicate 34 .tick ++ [.num (-1)]

/-- The app does not start, which does not leave the HAL idle. -/
theorem leftIdle_iff_missing : ∃ es ret m',
    hal.solo (fun _ => false) 1 appMissing Start.authenticate.code Mem.zero =
      some (es, .ret ret, m') ∧ es.any failsWorker = true ∧ ¬ (ret ≠ 0 → LeftIdle es m') := by
  obtain ⟨es, ret, m', h, hfails⟩ : ∃ es ret m',
      hal.solo (fun _ => false) 1 appMissing Start.authenticate.code Mem.zero =
        some (es, .ret ret, m') ∧ es.any failsWorker = true := ⟨_, _, _, rfl, rfl⟩
  refine ⟨es, ret, m', h, hfails, fun hleft => ?_⟩
  rw [((leftIdle_iff (a := .authenticate) rfl h).mp hleft).1] at hfails
  cases hfails

/-- The app does not start, and `STATE_SCAN` stays with the sensor powered: the HAL is busy. -/
theorem left_scanning : ∃ es m',
    hal.solo (fun _ => false) 1 appMissing vcsStartAuthenticate Mem.zero =
      some (es, .ret (-1), m') ∧
    Mem.zero.tz.state = .stateIdle ∧ m'.tz.state = .stateScan ∧ m'.sensor.init = true ∧
      ¬ LeftIdle es m' :=
  ⟨_, _, rfl, rfl, rfl, rfl, fun h => nomatch h.sensor⟩

/-! ## A rejected enrollment -/

section alone

variable {fin : Tid → Bool} {t : Tid} {chs : List Choice} {m m' : Mem} {es : List HalEvent}

/-- What the token changes is what it says anew. -/
theorem noEffect_of_tokenStored {token : HwAuthToken} (hvdev : m'.vdev = tokenStored m token)
    (hfinger : m'.tz.finger = m.tz.finger) (hstate : m'.tz.state = m.tz.state) :
    NoEffect m m' ↔ (token.challenge = m.vdev.challenge → token.userId = m.vdev.secureUserId) ∧
      (passes m token → token.userId = m.vdev.userId) := by
  constructor
  · intro hno
    have hsecure := hno.secureUserId
    have huser := hno.userId
    rw [hvdev] at hsecure huser
    refine ⟨fun hmatch => ?_, fun hpass => ?_⟩
    · simpa [tokenStored, hmatch] using hsecure
    · simpa [tokenStored, hpass] using huser
  · rintro ⟨hsecure, huser⟩
    refine ⟨?_, ?_, ?_, ?_, hfinger, hstate⟩
    all_goals rw [hvdev]
    · by_cases hmatch : token.challenge = m.vdev.challenge
      · simp [tokenStored, hmatch, hsecure hmatch]
      · simp [tokenStored, hmatch]
    · by_cases hpass : passes m token
      · simp [tokenStored, hpass, huser hpass]
      · simp [tokenStored, hpass]
    · rfl
    · rfl

/-- **A rejected enrollment has no effect** exactly when it is harmless. -/
theorem noEffect_iff {hat : Option HwAuthToken} {timeout : UInt32} {ret : CInt}
    (h : hal.solo fin t chs (fingerprintEnroll hat timeout) m = some (es, .ret ret, m')) :
    (es.any launchesWorker = false → NoEffect m m') ↔
      ∀ token, hat = some token → Harmless m es token := by
  cases hat with
  | none =>
    obtain ⟨-, -, rfl⟩ := Machine.does_ret.mp (Machine.does_of_solo h)
    exact ⟨fun _ _ h => (by cases h), fun _ _ => ⟨rfl, rfl, rfl, rfl, rfl, rfl⟩⟩
  | some token =>
    obtain ⟨y, hy, hm', hfailed, -, hworker⟩ := launch_alone launch_enroll h
    have hvdev : m'.vdev = tokenStored m token := hm'.vdev.trans hy.vdev
    rw [← hworker]
    by_cases hreach : reachesStart m token
    · -- the start leaves `STATE_ENROLL`, so it must not fail
      obtain ⟨hstate, hstarted⟩ := hy.started hreach
      rw [hstarted]
      constructor
      · rintro hno _ ⟨⟩
        refine ⟨fun _ => ?_, fun h => absurd hreach h⟩
        rw [← hfailed]
        by_contra hfail
        have hstill := (hno (by simpa using hfail)).state
        rw [hm'.state, hstate, hreach.2.2] at hstill
        cases hstill
      · intro hok hno
        rw [hfailed, (hok token rfl).1 hreach] at hno
        cases hno
    · obtain ⟨hstate, hnone⟩ := hy.rejected hreach
      have hiff := noEffect_of_tokenStored hvdev hm'.finger (hm'.state.trans hstate)
      constructor
      · rintro hno _ ⟨⟩
        exact ⟨fun h => absurd h hreach, fun _ => hiff.mp (hno hnone)⟩
      · exact fun hok _ => hiff.mpr ((hok token rfl).2 hreach)

end alone

/-- A token of a user for challenge 7. -/
def challenged (userId : UInt64) : HwAuthToken := ⟨hwAuthTokenVersion, 7, userId, 0, 0, 0⟩

/-- A device that is scanning; user 4 is stored, and challenge 7 has been issued. -/
def busyDevice : Mem :=
  { Mem.started with
    tz := { Mem.started.tz with state := .stateScan }
    vdev := { Device.zero with challenge := 7, secureUserId := 4, userId := 4 } }

/-- The device is busy, and the token names the user who is stored. -/
theorem noEffect_iff_busy : ∃ es m',
    hal.solo (fun _ => false) 1 (List.replicate 12 .tick) (fingerprintEnroll (some (challenged 4)) 0)
      busyDevice = some (es, .ret (-1), m') ∧ NoEffect busyDevice m' := by
  obtain ⟨es, m', h, hno⟩ : ∃ es m', hal.solo (fun _ => false) 1 (List.replicate 12 .tick)
      (fingerprintEnroll (some (challenged 4)) 0) busyDevice = some (es, .ret (-1), m') ∧
        es.any launchesWorker = false := ⟨_, _, rfl, rfl⟩
  refine ⟨es, m', h, (noEffect_iff h).mpr ?_ hno⟩
  rintro _ ⟨⟩
  exact ⟨fun hreach => (nomatch hreach.2.2), fun _ => ⟨fun _ => rfl, fun _ => rfl⟩⟩

/-- The device is busy, and the rejected token's user is the secure user from now on. -/
theorem rejected_user : ∃ es m',
    hal.solo (fun _ => false) 1 (List.replicate 12 .tick) (fingerprintEnroll (some (challenged 9)) 0)
      busyDevice = some (es, .ret (-1), m') ∧ es.any launchesWorker = false ∧
    m'.vdev.secureUserId = 9 ∧ ¬ NoEffect busyDevice m' :=
  ⟨_, _, rfl, rfl, rfl, fun h => absurd h.secureUserId (by decide)⟩

end KlteCommon.Analysis
