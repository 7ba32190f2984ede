import KlteCommon.Computation.Protocol
import KlteCommon.Fingerprint.Effects
import KlteCommon.Fingerprint.Loops

/-!
# Lock discipline

The four mutexes are not recursive, so a thread that takes one it already holds never goes on.
The stages of `lockProtocol` are the sets of mutexes a thread holds; `acquires` is the contract of
each procedure: the mutexes it, or anything it calls, takes.

The ladder: every body keeps to its contract (`lockProtocol_valid`), a thread's stage knows every
mutex the memory says it holds (`heldBy_of_locks`), so no thread takes one of its own
(`acquire_notHeld`). One call chain breaks the rule: `fingerprint_enroll` reports that no slot is
free with `vdev->lock` held, and the report takes it (`enroll_full_deadlock`).
-/

set_option autoImplicit false

namespace KlteCommon.Analysis

open KlteCommon.Computation KlteCommon.Fingerprint

/-! ## The protocol -/

/-- The mutexes a thread holds. -/
structure Held where
  vdev : Bool
  tz : Bool
  sensor : Bool
  timeout : Bool

namespace Held

/-- Whether `mu` is held. -/
def get (h : Held) : Mutex → Bool
  | .vdevLock => h.vdev
  | .tzLock => h.tz
  | .sensorLock => h.sensor
  | .timeoutLock => h.timeout

/-- Taking `mu`, or giving it up. -/
def set (h : Held) : Mutex → Bool → Held
  | .vdevLock, b => { h with vdev := b }
  | .tzLock, b => { h with tz := b }
  | .sensorLock, b => { h with sensor := b }
  | .timeoutLock, b => { h with timeout := b }

/-- What is held after one mutex was taken or given up. -/
theorem get_set (h : Held) (mu nu : Mutex) (b : Bool) :
    (h.set mu b).get nu = if nu = mu then b else h.get nu := by
  cases mu <;> cases nu <;> rfl

/-- Nothing is held. -/
def none : Held := ⟨false, false, false, false⟩

end Held

/-- The mutex an operation takes. -/
def taken : Op → Option Mutex
  | .lock mu | .condWake _ mu | .condTimedWake _ mu => some mu
  | _ => none

/-- The mutexes a procedure may take, so that it is not called while one of them is held. -/
def acquires : Call → List Mutex
  | .getTzState | .setTzState _ | .vcsCheckState | .vcsStartCaptureRead => [.tzLock]
  | .vcsStartCaptureWait | .vcsTimeoutLoop | .vcsUninit => [.tzLock]
  | .vcsStartAuthenticate | .vcsStartEnroll _ => [.tzLock]
  | .vcsStartCapture _ | .vcsAuthenticate | .vcsAuthenticateLoop =>
    [.tzLock, .sensorLock, .vdevLock]
  | .vcsEnroll | .vcsEnrollLoop _ _ => [.tzLock, .sensorLock, .vdevLock]
  | .vcsTimeout => [.timeoutLock, .tzLock, .vdevLock]
  | .sensorProcessSignal => [.timeoutLock, .sensorLock, .tzLock]
  | .sendErrorNotice _ | .sendAcquiredNotice _ | .sendEnrollNotice _ _ => [.vdevLock]
  | .sendAuthenticatedNotice _ | .sendRemoveNotice _ => [.vdevLock]
  | .fingerprintGetAuthId | .fingerprintSetActiveGroup _ | .fingerprintPreEnroll => [.vdevLock]
  | .fingerprintPostEnroll | .fingerprintEnumerate | .fingerprintRemove _ => [.vdevLock]
  | .setNotifyCallback _ => [.vdevLock]
  | .fingerprintAuthenticate _ | .fingerprintEnroll _ _ | .fingerprintOpen => [.vdevLock, .tzLock]
  | .fingerprintCancel | .fingerprintClose => [.timeoutLock, .tzLock, .sensorLock, .vdevLock]
  | _ => []

/-- What an operation does to the mutexes held. -/
def heldAfter (x : Held) : Op → Option Held
  | .lock mu | .condWake _ mu | .condTimedWake _ mu =>
    if x.get mu then none else some (x.set mu true)
  | .unlock mu | .condBlock _ mu => some (x.set mu false)
  | _ => some x

/-- The one response that is relied on: `fingerprint_enroll` does not find the last slot
occupied. -/
def foundFree (enrolls : Bool) : (o : Op) → Resp o → Prop
  | .load (.fingerExist idx), r => enrolls = true → idx = maxNumFingers → r = false
  | _, _ => True

/-- What else must hold where a procedure is called: `sensor.lock` is held around the wait for
the finger, which gives it up only to wait, and `fingerprint_enroll` is called by nobody. -/
def prepared (enrolls : Bool) (x : Held) : Call → Prop
  | .vcsStartCaptureWait => x.sensor = true
  | .fingerprintEnroll _ _ => enrolls = true
  | _ => True

/-- The protocol of the mutexes, for a thread that runs `fingerprint_enroll` or another one. -/
def lockProtocol (enrolls : Bool) : Protocol Resp Ret Held where
  assume _
    | .op o r => foundFree enrolls o r
    | _ => True
  next x
    | .op o _ => heldAfter x o
    | _ => some x
  pre c x := (∀ mu ∈ acquires c, x.get mu = false) ∧ prepared enrolls x c
  post _ x _ y := y = x

section

variable (en : Bool) (x y : Held) (c : Call) (r : Ret c) (o : Op) (a : Resp o)

/-- What is assumed of an operation. -/
@[simp] theorem assume_op : (lockProtocol en).assume x (.op o a) ↔ foundFree en o a := Iff.rfl

/-- What a thread holds after an operation. -/
@[simp] theorem next_op : (lockProtocol en).next x (.op o a) = heldAfter x o := rfl

/-- The condition on a call: it may take what it takes. -/
@[simp] theorem lockProtocol_pre : (lockProtocol en).pre c x ↔
    (∀ mu ∈ acquires c, x.get mu = false) ∧ prepared en x c := Iff.rfl

/-- A call gives up what it has taken. -/
@[simp] theorem lockProtocol_post : (lockProtocol en).post c x r y ↔ y = x := Iff.rfl

/-- A call gives up what it has taken. -/
@[simp ↓] theorem callRule_fine (Q : Ret c → Held → Prop) :
    (lockProtocol en).callRule fine c Q x ↔ (lockProtocol en).pre c x ∧ ∀ r, Q r x := by
  simp [Protocol.callRule, fine, lockProtocol]

end

/-! ## Every body keeps to its contract -/

section bodies

attribute [local simp ↓] load store op call send ionSbuffer sameIonSbuffer

attribute [local simp] Held.get Held.set heldAfter foundFree prepared fine acquires

variable {en : Bool} {α : Type} {p : Code α} {Q : α → Held → Prop} {x : Held}

/-- Code that only reads the slots takes no mutex. -/
theorem follows_of_readsSlot (hp : p.Within Op.readsSlot fun _ => False) (hQ : ∀ a, Q a x) :
    (lockProtocol en).Follows fine p Q x := by
  refine .frame hp (fun o ho r => ?_) hQ
  cases o <;> first | rfl | cases ho

/-- Nor does code that only fills one. -/
theorem follows_of_fillsSlot (hp : p.Within Op.fillsSlot fun _ => False) (hQ : ∀ a, Q a x) :
    (lockProtocol en).Follows fine p Q x := by
  refine .frame hp (fun o ho r => ?_) hQ
  cases o <;> first | rfl | cases ho

variable {Q : Unit → Held → Prop} {Qi : ℤ → Held → Prop}

/-- Clearing the slots takes no mutex. -/
@[simp ↓] theorem follows_clearFingers (n : ℕ) (idx : ℤ) :
    (lockProtocol en).Follows fine (clearFingers n idx) Q x ↔ Q () x := by
  induction n generalizing idx with
  | zero => simp [clearFingers]
  | succ n ih => simp [clearFingers, ih]

/-- Nor does reading the rows of a table. -/
@[simp ↓] theorem follows_readRows (rows : List Row) (hQ : ∀ a, Q a x) :
    (lockProtocol en).Follows fine (readRows rows) Q x :=
  follows_of_fillsSlot (readRows_within ..) hQ

/-- Nor does reading Samsung's enrollments. -/
@[simp ↓] theorem follows_readEnrollments (rows : List (ℤ × List UInt8)) (hQ : ∀ a, Q a x) :
    (lockProtocol en).Follows fine (readEnrollments rows) Q x :=
  follows_of_fillsSlot (readEnrollments_within ..) hQ

/-- Nor does building the match request. -/
@[simp ↓] theorem follows_matchTemplates {Q : List (ℕ × List UInt8) → Held → Prop} (n : ℕ)
    (idx : ℤ) (len : ℕ) (hQ : ∀ a, Q a x) :
    (lockProtocol en).Follows fine (matchTemplates n idx len) Q x :=
  follows_of_readsSlot (matchTemplates_within ..) hQ

/-- Nor does the search for the matched finger. -/
@[simp ↓] theorem follows_findMatched (fakeFid : CInt) (fingerindex : ℤ) (n : ℕ) (idx : ℤ)
    (len : CInt) (hQ : ∀ a, Qi a x) :
    (lockProtocol en).Follows fine (findMatched fakeFid fingerindex n idx len) Qi x :=
  follows_of_readsSlot (findMatched_within ..) hQ

/-- Nor does the search for a free slot. -/
@[simp ↓] theorem follows_firstFreeSlot (n : ℕ) (idx : ℤ) (hQ : ∀ a, Qi a x) :
    (lockProtocol en).Follows fine (firstFreeSlot n idx) Qi x :=
  follows_of_readsSlot (firstFreeSlot_within ..) hQ

/-- Nor does writing what was read. -/
@[simp ↓] theorem follows_writeEnrollments (payload : List UInt8) (n : ℕ) (idx : ℤ)
    (hQ : ∀ a, Q a x) : (lockProtocol en).Follows fine (writeEnrollments payload n idx) Q x := by
  induction n generalizing idx with
  | zero => simp [writeEnrollments, hQ]
  | succ n ih => simp [writeEnrollments, ih]

/-- The removal of all fingers takes `vdev->lock` for its notices. -/
theorem follows_removeFingers {Q : CInt → Held → Prop} (n : ℕ) (idx : ℤ) (ret : CInt)
    (hx : x.vdev = false) (hQ : ∀ a, Q a x) :
    (lockProtocol en).Follows fine (removeFingers n idx ret) Q x := by
  induction n generalizing idx ret with
  | zero => simp [removeFingers, hQ]
  | succ n ih =>
    obtain ⟨v, tz, s, tm⟩ := x
    obtain rfl : v = false := hx
    simp [removeFingers, ih]

/-- Every body keeps to the contracts. -/
theorem lockProtocol_valid (en : Bool) : (lockProtocol en).Valid fine body := by
  intro c _ x hx
  obtain ⟨v, tz, s, tm⟩ := x
  cases c
  all_goals simp at hx
  case getTzState => simp [body, getTzState, hx]
  case setTzState => simp [body, setTzState, hx]
  case vcsUpdateCalData => simp [body, vcsUpdateCalData]
  case vcsCheckState => simp [body, vcsCheckState, hx]
  case vcsStartCapture => simp [body, vcsStartCapture, hx]
  case vcsStartCaptureWait => simp [body, vcsStartCaptureWait, hx]
  case vcsStartCaptureRead => simp [body, vcsStartCaptureRead, hx]
  case vcsAuthenticate => simp [body, vcsAuthenticate, hx]
  case vcsAuthenticateLoop => simp [body, vcsAuthenticateLoop, hx]
  case vcsEnroll => simp [body, vcsEnroll, vcsEnrollCommit, payloadBind, enrollmentPasswordSet, hx]
  case vcsEnrollLoop => simp [body, vcsEnrollLoop, hx]
  case vcsTimeout => simp [body, vcsTimeout, hx]
  case vcsTimeoutLoop => simp [body, vcsTimeoutLoop, hx]
  case vcsStartAuthenticate =>
    simp [body, vcsStartAuthenticate, awaitIdle, hx]
    rintro _ _ _ _ (_ | _) <;> simp
  case vcsStartEnroll timeout _ =>
    simp [body, vcsStartEnroll, hx]
    rintro (_ | _)
    · simp
    · simp
      rintro - (_ | _) <;> simp
  case vcsGetEnrolledFingerNum =>
    exact follows_of_readsSlot (countFingers_within ..) fun num => by simp
  case vcsUpdateAuthToken => simp [body, vcsUpdateAuthToken, getAuthToken]
  case vcsStartAuthSession => simp [body, vcsStartAuthSession]
  case vcsStopAuthSession => simp [body, vcsStopAuthSession]
  case vcsResume => simp [body, vcsResume, deviceResume]
  case vcsUninit => simp [body, vcsUninit, hx]
  case vcsInit => simp [body, vcsInit]
  case sensorUninit => simp [body, sensorUninit]
  case sensorInit => simp [body, sensorInit]
  case sensorProcessSignal => simp [body, sensorProcessSignal, hx]
  case sensorRegister => simp [body, sensorRegister]
  case sensorCaptureStart => simp [body, sensorCaptureStart]
  case dbCheckAndCreateTable => simp [body, dbCheckAndCreateTable]
  case dbConvertOldDb => simp [body, dbConvertOldDb]
  case dbReadToTz => simp [body, dbReadToTz]
  case dbWriteToDb => simp [body, dbWriteToDb]
  case dbInit => simp [body, dbInit]
  case dbUninit => simp [body, dbUninit]
  case sendErrorNotice => simp [body, sendErrorNotice, hx]
  case sendAcquiredNotice => simp [body, sendAcquiredNotice, hx]
  case sendEnrollNotice => simp [body, sendEnrollNotice, hx]
  case sendAuthenticatedNotice => simp [body, sendAuthenticatedNotice, hx]
  case sendRemoveNotice => simp [body, sendRemoveNotice, hx]
  case fingerprintGetAuthId => simp [body, fingerprintGetAuthId, hx]
  case fingerprintSetActiveGroup => simp [body, fingerprintSetActiveGroup, hx]
  case fingerprintAuthenticate => simp [body, fingerprintAuthenticate, hx]
  case fingerprintEnroll hat _ _ =>
    cases hat <;> simp [body, fingerprintEnroll, findFreeSlot, firstFreeSlot, maxNumFingers, hx]
  case fingerprintPreEnroll => simp [body, fingerprintPreEnroll, hx]
  case fingerprintPostEnroll => simp [body, fingerprintPostEnroll, hx]
  case fingerprintCancel =>
    simp [body, fingerprintCancel, hx]
    rintro _ _ (_ | t) <;> simp
  case fingerprintCancelLoop => simp [body, fingerprintCancelLoop]
  case fingerprintEnumerate => simp [body, fingerprintEnumerate, hx]
  case fingerprintRemove fid _ =>
    by_cases hfid : fid = 0
    · simp [body, fingerprintRemove, hx, hfid, follows_removeFingers]
    · simp [body, fingerprintRemove, hx, hfid]
  case setNotifyCallback => simp [body, setNotifyCallback, hx]
  case fingerprintClose => simp [body, fingerprintClose, hx]
  case fingerprintOpen => simp [body, fingerprintOpen, hx]

end bodies

/-! ## Every run -/

/-- Whether a call is `fingerprint_enroll`. -/
def enrolls : Call → Bool
  | .fingerprintEnroll _ _ => true
  | _ => false

/-- A thread starts with no mutex. -/
def lockRoles : Roles Resp Ret Held where
  protocol c := lockProtocol (enrolls c)
  away := .none
  start _ := .none
  final _ _ _ := True

/-- The calls from outside: the entry points on an open device and the signal handler. -/
def entryPoints : Call → Bool
  | .fingerprintAuthenticate _ | .fingerprintEnroll _ _ | .fingerprintCancel => true
  | .fingerprintRemove _ | .fingerprintEnumerate | .fingerprintSetActiveGroup _ => true
  | .fingerprintPreEnroll | .fingerprintPostEnroll | .fingerprintGetAuthId => true
  | .setNotifyCallback _ | .fingerprintClose | .sensorProcessSignal => true
  | _ => false

/-- The stages know every mutex a thread holds. -/
def StagesKnow (s : Hal) (φ : Tid → Held) : Prop :=
  ∀ t mu, s.mem.locks mu = some t → (φ t).get mu = true

/-- No `fingerprint_enroll` finds the last slot occupied, which is the one it looks at when all
the others are. -/
def findsFree (s : Hal) (t : Tid) (e : HalEvent) : Prop :=
  ∀ hat timeoutSec, s.entry t = some (.fingerprintEnroll hat timeoutSec) →
    e ≠ .op (.load (.fingerExist maxNumFingers)) true

/-- An operation takes a mutex, gives one up, or leaves them all alone. -/
theorem heldAfter_cases (t : Tid) (locks : Mutex → Option Tid) (x : Held) (o : Op) :
    (∃ mu, locksAfter t locks o = Function.update locks mu (some t) ∧
      heldAfter x o = if x.get mu then none else some (x.set mu true)) ∨
    (∃ mu, locksAfter t locks o = Function.update locks mu none ∧
      heldAfter x o = some (x.set mu false)) ∨
    (locksAfter t locks o = locks ∧ heldAfter x o = some x) := by
  cases o <;> first
    | exact .inl ⟨_, rfl, rfl⟩
    | exact .inr (.inl ⟨_, rfl, rfl⟩)
    | exact .inr (.inr ⟨rfl, rfl⟩)

/-- What an operation does to the mutexes, in the memory and in the stage of its thread. -/
theorem locks_step {t u : Tid} {o : Op} {r : Resp o} {m m' : Mem} {φ : Tid → Held} {y : Held} {mu : Mutex}
    (h : Effect t o r m m') (hy : heldAfter (φ t) o = some y)
    (hφ : ∀ u mu, m.locks mu = some u → (φ u).get mu = true) (hmu : m'.locks mu = some u) :
    (Function.update φ t y u).get mu = true := by
  rw [h.locks] at hmu
  obtain ⟨nu, hl, hx⟩ | ⟨nu, hl, hx⟩ | ⟨hl, hx⟩ := heldAfter_cases t m.locks (φ t) o
  · rw [hl] at hmu
    rw [hx] at hy
    split at hy
    · cases hy
    obtain rfl := by simpa using hy
    by_cases hnu : mu = nu
    · subst hnu
      obtain rfl : t = u := by simpa using hmu
      simp [Held.get_set]
    · rw [Function.update_of_ne hnu] at hmu
      by_cases hut : u = t
      · subst hut
        simp [Held.get_set, hnu, hφ u mu hmu]
      · simp [hut, hφ u mu hmu]
  · rw [hl] at hmu
    obtain rfl := by simpa [hx] using hy
    by_cases hnu : mu = nu
    · subst hnu
      simp at hmu
    · rw [Function.update_of_ne hnu] at hmu
      by_cases hut : u = t
      · subst hut
        simp [Held.get_set, hnu, hφ u mu hmu]
      · simp [hut, hφ u mu hmu]
  · rw [hl] at hmu
    obtain rfl := by simpa [hx] using hy
    simpa using hφ u mu hmu

/-- Every entry point and every created thread may be started by a thread that holds nothing. -/
theorem lockRoles_starts {c : Call} (hc : entryPoints c = true ∨ ∃ w : Worker, c = w.call) :
    lockRoles.Starts fine c := by
  simp only [Roles.Starts, lockRoles, Protocol.follows_call, callRule_fine, lockProtocol_pre]
  refine ⟨⟨fun mu _ => ?_, ?_⟩, fun _ => trivial⟩
  · cases mu <;> rfl
  · obtain hc | ⟨w, rfl⟩ := hc
    · cases c <;> trivial
    · cases w <;> trivial

/-- **One step.** The stages go on knowing the mutexes. -/
theorem StagesKnow.run {s s' : Hal} {φ : Tid → Held} {t : Tid} {e : HalEvent} {y : Held}
    {en : Bool} (hφ : StagesKnow s φ) (hs : Staged lockRoles fine s.pool φ)
    (hr : s.Runs fine t e s') (hy : (lockProtocol en).next (φ t) e = some y) :
    StagesKnow s' (stagesAfter lockRoles hal φ t e y) := by
  have hlocks : ∀ u mu, s'.mem.locks mu = some u → (Function.update φ t y u).get mu = true := by
    intro u mu hmu
    cases e with
    | op o r => exact locks_step (effect_of_runs hr) hy hφ hmu
    | enter c =>
      obtain rfl : φ t = y := by simpa [lockProtocol] using hy
      rw [mem_of_enters hr] at hmu
      simpa using hφ u mu hmu
    | done c r => exact (not_done_of_fine hr).elim
  intro u mu hmu
  have hget := hlocks u mu hmu
  obtain ⟨c, hb, -⟩ | ⟨-, heq⟩ := stagesAfter_cases lockRoles hal φ t e y u
  · -- the created thread's name was not in use, so it holds nothing
    have hut : u ≠ t := fun h => hr.mem_pool (h ▸ hr.fresh u c hb)
    rw [Function.update_of_ne hut, hs.away u (hr.fresh u c hb)] at hget
    cases mu <;> cases hget
  · rwa [heq]

/-! ## The discipline -/

/-- The mutex a program is about to take. -/
def acquiring {α : Type} : Code α → Option Mutex
  | .op o _ => taken o
  | _ => none

/-- No thread is about to take a mutex it holds. -/
def LockDiscipline (s : Hal) : Prop :=
  ∀ t th mu, s.pool t = some th → acquiring th.code = some mu → s.mem.locks mu ≠ some t

/-- A program that keeps to the protocol is not about to take a mutex of its stage. -/
theorem notHeld_of_follows {en : Bool} {α : Type} {p : Code α} {Q : α → Held → Prop} {x : Held} {mu : Mutex}
    (h : (lockProtocol en).Follows fine p Q x) (ha : acquiring p = some mu) : x.get mu = false := by
  have hnext : ∀ (o : Op) (r : Resp o) (Q : Held → Prop), heldAfter x o =
      (if x.get mu then none else some (x.set mu true)) → foundFree en o r →
      (lockProtocol en).Takes x (.op o r) Q → x.get mu = false := by
    intro o r Q ho hr ht
    obtain ⟨y, hy, -⟩ := ht.next hr
    rw [next_op, ho] at hy
    split at hy
    · cases hy
    · simp_all
  cases p with
  | ret | call => cases ha
  | op o k =>
    cases o <;> cases ha
    · exact hnext (.lock mu) () _ rfl trivial (h ())
    · exact hnext (.condWake _ mu) () _ rfl trivial (h ())
    · exact hnext (.condTimedWake _ mu) 0 _ rfl trivial (h 0)

/-- **Lock discipline.** From any idle device, as long as `fingerprint_enroll` finds a free slot,
no thread takes a mutex it holds. -/
theorem lockDiscipline {s₀ s : Hal} (hpool : ∀ t, s₀.pool t = none)
    (hlocks : ∀ mu, s₀.mem.locks mu = none) (h : s₀.Reaches fine entryPoints findsFree s) :
    LockDiscipline s := by
  obtain ⟨φ, hs, hφ⟩ : ∃ φ, Staged lockRoles fine s.pool φ ∧ StagesKnow s φ := by
    refine State.Reaches.staged (fun _ => .none) (fun _ => lockProtocol_valid _)
      (fun _ _ _ _ _ _ _ hb => lockRoles_starts (.inr (born_worker hb)))
      (fun c hc => lockRoles_starts (.inl hc))
      ⟨fun t th ht => by simp [hpool t] at ht, fun _ _ => rfl⟩
      (fun t mu ht => by simp [hlocks mu] at ht) ?_ ?_
      (fun s φ t th e s' y hs hφ _ _ hr hy _ => hφ.run hs hr hy) h
    · intro s φ t c hs hφ _ ht u mu hmu
      -- a thread starts with what an unused name has
      have hstart : Function.update φ t (lockRoles.start c) = φ := by
        rw [Function.update_eq_self_iff]
        exact (hs.away t ht).symm
      rw [hstart]
      exact hφ u mu hmu
    · rintro s φ t ⟨entry, code⟩ e s' _ _ hok hth _
      cases e with
      | op o r =>
        simp only [lockRoles, assume_op]
        unfold foundFree
        split
        · rintro hen rfl
          cases entry <;> cases hen
          simpa using hok _ _ (by rw [State.entry, hth]; rfl)
        · trivial
      | _ => trivial
  intro t th mu hth hacq hheld
  have hget := hφ t mu hheld
  rw [notHeld_of_follows (hs.follows t th hth) hacq] at hget
  cases hget

/-- Whether every slot a thread looks at is free. -/
def readsFree (_ : Hal) (_ : Tid) : HalEvent → Bool
  | .op (.load (.fingerExist _)) r => !r
  | _ => true

/-- A run of `fingerprint_enroll` that takes the first slot: it gets past the search. -/
theorem lockDiscipline_enroll :
    ∃ s, (Hal.idle .zero).Reaches fine entryPoints findsFree s ∧ s.log.length = 9 ∧
      LockDiscipline s := by
  obtain ⟨s, hs, hlog⟩ : ∃ s, (Hal.idle .zero).exec fine entryPoints readsFree
      (.arrive 1 (.fingerprintEnroll (some ⟨0, 0, 0, 0, 0, 0⟩) 0) ::
        List.replicate 9 (.run 1 [.tick])) = some s ∧ s.log.length = 9 := ⟨_, rfl, rfl⟩
  have hr : (Hal.idle .zero).Reaches fine entryPoints findsFree s := by
    refine State.Reaches.refl.exec (fun s t e he hat timeoutSec _ => ?_) hs
    rintro rfl
    cases he
  exact ⟨s, hr, hlog, lockDiscipline (fun _ => rfl) (fun _ => rfl) hr⟩

/-- A device whose slots are all taken. -/
def fullDevice : Hal :=
  .idle { Mem.zero with
    tz := { TrustZone.zero with finger := fun _ => { Finger.zero with exist := true } } }

/-- With all slots taken `fingerprint_enroll` waits for itself: after its twelve steps the report
is about to take `vdev->lock`, which the thread holds. -/
theorem enroll_full_deadlock :
    ∃ s, fullDevice.Reaches fine entryPoints (fun _ _ _ => True) s ∧ ¬ LockDiscipline s := by
  obtain ⟨s, hs, hnot⟩ : ∃ s, fullDevice.exec fine entryPoints (fun _ _ _ => true)
      (.arrive 1 (.fingerprintEnroll (some ⟨0, 0, 0, 0, 0, 0⟩) 0) ::
        List.replicate 12 (.run 1 [.tick])) = some s ∧ ¬ LockDiscipline s :=
    ⟨_, rfl, fun h => h 1 _ .vdevLock rfl rfl rfl⟩
  exact ⟨s, State.Reaches.refl.exec (fun _ _ _ _ => trivial) hs, hnot⟩

end KlteCommon.Analysis
