import KlteCommon.Analysis.LockDiscipline
import KlteCommon.Computation.Fairness

/-!
# The order of the locks

No thread takes a mutex while it holds one of a higher rank, none sleeps while it holds any, and
what is shared is written, and the framework told, only by the holder of its mutex. `orderProtocol`
is `lockProtocol` with these demands on every operation (`permits`).

The ladder: every body keeps to its contract (`orderProtocol_valid`), a thread's stage is exactly
what the memory says it holds (`StagesMatch`). So every operation finds its mutex held
(`guarded`), whoever holds a mutex is awake (`sleeper_holds_nothing`), and every wait for a mutex
ends at a thread that can go on (`waits_end_running`): the one deadlock there is, is that of
`fingerprint_enroll` with itself.
-/

set_option autoImplicit false

namespace KlteCommon.Analysis

open KlteCommon.Computation KlteCommon.Fingerprint

/-! ## Ranks and guards -/

/-- The order in which mutexes are taken. -/
def rank : Mutex → ℕ
  | .vdevLock => 0
  | .timeoutLock => 1
  | .sensorLock => 2
  | .tzLock => 3

/-- Whether a thread may take `mu`: it holds nothing that ranks as high. -/
def Held.mayTake (x : Held) : Mutex → Bool
  | .vdevLock => !x.vdev && !x.timeout && !x.sensor && !x.tz
  | .timeoutLock => !x.timeout && !x.sensor && !x.tz
  | .sensorLock => !x.sensor && !x.tz
  | .tzLock => !x.tz

/-- A mutex may be taken if it ranks above all that are held. -/
theorem Held.mayTake_iff (x : Held) (mu : Mutex) :
    x.mayTake mu = true ↔ ∀ nu, x.get nu = true → rank nu < rank mu := by
  obtain ⟨v, tz, s, tm⟩ := x
  constructor
  · intro h nu hnu
    cases mu <;> cases nu <;> simp_all [Held.mayTake, Held.get, rank]
  · intro h
    have hv := h .vdevLock
    have htz := h .tzLock
    have hs := h .sensorLock
    have htm := h .timeoutLock
    cases mu <;> simp_all [Held.mayTake, Held.get, rank]

/-- The worker that inserts what it has enrolled. -/
def insertsOwn : Call → Bool
  | .vcsEnroll => true
  | _ => false

/-- The mutex that guards an operation of a thread that runs `entry`: `vdev->lock` what the entry
points write, the database but for the worker's insertion, the notices and the creation of threads,
the others what they are named for. -/
def guard (entry : Call) : Op → Option Mutex
  | .store .opId _ | .store .challenge _ | .store .activeGid _ => some .vdevLock
  | .store .authenticatorId _ | .store .notify _ | .store .timeout _ => some .vdevLock
  | .store (.finger _) _ | .notify _ | .pthreadCreate _ | .readDbFile => some .vdevLock
  | .sqlOpen | .sqlClose | .sqlCreate _ | .sqlDelete _ _ | .sqlSelect _ => some .vdevLock
  | .sqlStep _ | .readBlob _ _ | .copyData _ _ | .copyPayload _ _ => some .vdevLock
  | .legacyAccess | .legacyOpen | .legacySelectEnrollments => some .vdevLock
  | .legacySelectProperties | .legacyClose | .legacyRemove => some .vdevLock
  | .sqlPrepareInsert _ | .sqlBindBlob _ | .sqlInsert _ _ _ _ =>
    if insertsOwn entry then none else some .vdevLock
  | .store .tzState _ => some .tzLock
  | .load .sensorSignal | .store .sensorSignal _ | .condSignal .sensorCond => some .sensorLock
  | .condSignal .timeoutCond => some .timeoutLock
  | _ => none

/-- A thread that is about to do this sleeps until another one wakes it, or ends. -/
def asleep : Op → Bool
  | .condWake _ _ | .condTimedWake _ _ | .pthreadJoin _ => true
  | _ => false

/-! ## The protocol -/

/-- Whether a thread that runs `entry` and holds `x` may do this. -/
def permits (entry : Call) (x : Held) : Op → Bool
  | .lock mu => x.mayTake mu
  | .unlock mu => x.get mu
  | .condBlock _ mu => x.get mu
  | o => (guard entry o).all x.get && (!asleep o || x.mayTake .vdevLock)

/-- What is demanded where a procedure is called, besides that it may take what it takes: its
caller holds what guards its operations, and nothing while it polls for what others do. -/
def demands (entry : Call) (x : Held) : Call → Prop
  | .vcsStartCaptureWait => x = { Held.none with sensor := true }
  | .vcsStartCaptureRead | .vcsTimeoutLoop | .fingerprintCancelLoop => x = .none
  | .vcsStartAuthenticate | .vcsStartEnroll _ => x.vdev = true
  | .dbCheckAndCreateTable | .dbConvertOldDb | .dbReadToTz => x.vdev = true
  | .dbInit | .dbUninit | .dbWriteToDb true _ => x.vdev = true
  | .dbWriteToDb false _ => insertsOwn entry = true ∨ x.vdev = true
  | .vcsEnroll => insertsOwn entry = true
  | .fingerprintEnroll _ _ => enrolls entry = true
  | .fingerprintOpen => False
  | _ => True

/-- Whether a thread that holds `x` may call this; `fingerprint_enroll` reports that no slot is
free with `vdev->lock` held. -/
def ordered (entry : Call) (x : Held) : Call → Prop
  | .sendErrorNotice _ =>
    x.mayTake .vdevLock = true ∨ enrolls entry = true ∧ x = { Held.none with vdev := true }
  | c => (∀ mu ∈ acquires c, x.mayTake mu = true) ∧ demands entry x c

/-- What is known of an operation that happens: `fingerprint_enroll` does not get past taking
`vdev->lock` when it holds it. -/
def notOwn (entry : Call) (x : Held) : Op → Prop
  | .lock .vdevLock => enrolls entry = true → x ≠ { Held.none with vdev := true }
  | _ => True

/-- The protocol of the order, for a thread that runs `entry`. -/
def orderProtocol (entry : Call) : Protocol Resp Ret Held where
  assume x
    | .op o _ => notOwn entry x o
    | _ => True
  next x
    | .op o _ => if permits entry x o then heldAfter x o else none
    | _ => some x
  pre c x := ordered entry x c
  post _ x _ y := y = x

section

variable (entry : Call) (x y : Held) (c : Call) (r : Ret c) (o : Op) (a : Resp o)

/-- What is assumed of an operation. -/
@[simp] theorem orderProtocol_assume_op :
    (orderProtocol entry).assume x (.op o a) ↔ notOwn entry x o := Iff.rfl

/-- An operation that is permitted, and what is held behind it. -/
@[simp] theorem orderProtocol_next_op :
    (orderProtocol entry).next x (.op o a) = if permits entry x o then heldAfter x o else none := rfl

/-- The condition on a call. -/
@[simp] theorem orderProtocol_pre : (orderProtocol entry).pre c x ↔ ordered entry x c := Iff.rfl

/-- A call gives up what it has taken. -/
@[simp] theorem orderProtocol_post : (orderProtocol entry).post c x r y ↔ y = x := Iff.rfl

/-- A call in order gives up what it has taken. -/
@[simp ↓] theorem callRule_order (Q : Ret c → Held → Prop) :
    (orderProtocol entry).callRule fine c Q x ↔ ordered entry x c ∧ ∀ r, Q r x := by
  simp [Protocol.callRule, fine, orderProtocol]

end

/-! ## Every body keeps to its contract -/

section bodies

attribute [local simp ↓] load store op call send ionSbuffer sameIonSbuffer

attribute [local simp] Held.get Held.set Held.none Held.mayTake heldAfter fine acquires guard
  asleep permits ordered demands notOwn

variable {entry : Call} {α : Type} {p : Code α} {Q : α → Held → Prop} {x : Held}

/-- Code that only reads the slots needs no mutex. -/
theorem order_of_readsSlot (hp : p.Within Op.readsSlot fun _ => False) (hQ : ∀ a, Q a x) :
    (orderProtocol entry).Follows fine p Q x := by
  refine .frame hp (fun o ho r => ?_) hQ
  cases o with
  | load v => cases v <;> first | rfl | cases ho
  | _ => cases ho

/-- Code that fills a slot from a row has `vdev->lock`. -/
theorem order_of_fillsSlot (hx : x.vdev = true) (hp : p.Within Op.fillsSlot fun _ => False)
    (hQ : ∀ a, Q a x) : (orderProtocol entry).Follows fine p Q x := by
  refine .frame hp (fun o ho r => ?_) hQ
  cases o with
  | store v a => cases v <;> first | (simp [hx]; done) | cases ho
  | _ => first | (simp [hx]; done) | cases ho

variable {Q : Unit → Held → Prop} {Qi : ℤ → Held → Prop}

/-- Clearing the slots with `vdev->lock` held. -/
@[simp ↓] theorem order_clearFingers (n : ℕ) (idx : ℤ) (hx : x.vdev = true) :
    (orderProtocol entry).Follows fine (clearFingers n idx) Q x ↔ Q () x := by
  induction n generalizing idx with
  | zero => simp [clearFingers]
  | succ n ih => simp [clearFingers, hx, ih]

/-- Reading the rows of a table with `vdev->lock` held. -/
@[simp ↓] theorem order_readRows (rows : List Row) (hx : x.vdev = true) (hQ : ∀ a, Q a x) :
    (orderProtocol entry).Follows fine (readRows rows) Q x :=
  order_of_fillsSlot hx (readRows_within ..) hQ

/-- Reading Samsung's enrollments with `vdev->lock` held. -/
@[simp ↓] theorem order_readEnrollments (rows : List (ℤ × List UInt8)) (hx : x.vdev = true)
    (hQ : ∀ a, Q a x) : (orderProtocol entry).Follows fine (readEnrollments rows) Q x :=
  order_of_fillsSlot hx (readEnrollments_within ..) hQ

/-- Building the match request needs no mutex. -/
@[simp ↓] theorem order_matchTemplates {Q : List (ℕ × List UInt8) → Held → Prop} (n : ℕ)
    (idx : ℤ) (len : ℕ) (hQ : ∀ a, Q a x) :
    (orderProtocol entry).Follows fine (matchTemplates n idx len) Q x :=
  order_of_readsSlot (matchTemplates_within ..) hQ

/-- Nor does the search for the matched finger. -/
@[simp ↓] theorem order_findMatched (fakeFid : CInt) (fingerindex : ℤ) (n : ℕ) (idx : ℤ)
    (len : CInt) (hQ : ∀ a, Qi a x) :
    (orderProtocol entry).Follows fine (findMatched fakeFid fingerindex n idx len) Qi x :=
  order_of_readsSlot (findMatched_within ..) hQ

/-- Nor does the search for a free slot. -/
@[simp ↓] theorem order_firstFreeSlot (n : ℕ) (idx : ℤ) (hQ : ∀ a, Qi a x) :
    (orderProtocol entry).Follows fine (firstFreeSlot n idx) Qi x :=
  order_of_readsSlot (firstFreeSlot_within ..) hQ

/-- Writing what was read with `vdev->lock` held. -/
@[simp ↓] theorem order_writeEnrollments (payload : List UInt8) (n : ℕ) (idx : ℤ)
    (hx : x.vdev = true) (hQ : ∀ a, Q a x) :
    (orderProtocol entry).Follows fine (writeEnrollments payload n idx) Q x := by
  induction n generalizing idx with
  | zero => simp [writeEnrollments, hQ]
  | succ n ih => simp [writeEnrollments, hx, ih]

/-- The removal of all fingers, by a thread that may take `vdev->lock`. -/
theorem order_removeFingers {Q : CInt → Held → Prop} (n : ℕ) (idx : ℤ) (ret : CInt)
    (hx : x.mayTake .vdevLock = true) (hQ : ∀ a, Q a x) :
    (orderProtocol entry).Follows fine (removeFingers n idx ret) Q x := by
  obtain ⟨v, tz, s, tm⟩ := x
  simp at hx
  obtain ⟨⟨⟨rfl, rfl⟩, rfl⟩, rfl⟩ := hx
  induction n generalizing idx ret with
  | zero => simp [removeFingers, hQ]
  | succ n ih => simp [removeFingers, ih]

/-- Every body keeps to the order. -/
theorem orderProtocol_valid (entry : Call) : (orderProtocol entry).Valid fine body := by
  intro c _ x hx
  obtain ⟨v, tz, s, tm⟩ := x
  cases c
  all_goals simp at hx
  case getTzState => simp [body, getTzState, hx]
  case setTzState => simp [body, setTzState, hx]
  case vcsUpdateCalData => simp [body, vcsUpdateCalData]
  case vcsCheckState => simp [body, vcsCheckState, hx]
  case vcsStartCapture => simp [body, vcsStartCapture, hx]
  case vcsStartCaptureWait => simp [body, vcsStartCaptureWait, hx]
  case vcsStartCaptureRead => simp [body, vcsStartCaptureRead, hx]
  case vcsAuthenticate => simp [body, vcsAuthenticate, hx]
  case vcsAuthenticateLoop => simp [body, vcsAuthenticateLoop, hx]
  case vcsEnroll => simp [body, vcsEnroll, vcsEnrollCommit, payloadBind, enrollmentPasswordSet, hx]
  case vcsEnrollLoop => simp [body, vcsEnrollLoop, hx]
  case vcsTimeout => simp [body, vcsTimeout, hx]
  case vcsTimeoutLoop => simp [body, vcsTimeoutLoop, hx]
  case vcsStartAuthenticate =>
    simp [body, vcsStartAuthenticate, awaitIdle, hx]
    rintro _ _ _ _ (_ | _) <;> simp
  case vcsStartEnroll =>
    simp [body, vcsStartEnroll, hx]
    rintro (_ | _)
    · simp
    · simp
      rintro - (_ | _) <;> simp
  case vcsGetEnrolledFingerNum =>
    exact order_of_readsSlot (countFingers_within ..) fun num => by simp
  case vcsUpdateAuthToken => simp [body, vcsUpdateAuthToken, getAuthToken]
  case vcsStartAuthSession => simp [body, vcsStartAuthSession]
  case vcsStopAuthSession => simp [body, vcsStopAuthSession]
  case vcsResume => simp [body, vcsResume, deviceResume]
  case vcsUninit => simp [body, vcsUninit, hx]
  case vcsInit => simp [body, vcsInit]
  case sensorUninit => simp [body, sensorUninit]
  case sensorInit => simp [body, sensorInit]
  case sensorProcessSignal => simp [body, sensorProcessSignal, hx]
  case sensorRegister => simp [body, sensorRegister]
  case sensorCaptureStart => simp [body, sensorCaptureStart]
  case dbCheckAndCreateTable => simp [body, dbCheckAndCreateTable, hx]
  case dbConvertOldDb => simp [body, dbConvertOldDb, hx]
  case dbReadToTz => simp [body, dbReadToTz, hx]
  case dbWriteToDb remove _ _ =>
    cases remove
    · simp at hx
      obtain hown | hv := hx
      · simp [body, dbWriteToDb, hown]
      · cases hown : insertsOwn entry <;> simp [body, dbWriteToDb, hown, hv]
    · simp at hx
      simp [body, dbWriteToDb, hx]
  case dbInit => simp [body, dbInit, hx]
  case dbUninit => simp [body, dbUninit, hx]
  case sendErrorNotice =>
    obtain hx | ⟨hen, rfl, rfl, rfl, rfl⟩ := hx
    · simp [body, sendErrorNotice, hx]
    · simp [body, sendErrorNotice, hen]
  case sendAcquiredNotice => simp [body, sendAcquiredNotice, hx]
  case sendEnrollNotice => simp [body, sendEnrollNotice, hx]
  case sendAuthenticatedNotice => simp [body, sendAuthenticatedNotice, hx]
  case sendRemoveNotice => simp [body, sendRemoveNotice, hx]
  case fingerprintGetAuthId => simp [body, fingerprintGetAuthId, hx]
  case fingerprintSetActiveGroup => simp [body, fingerprintSetActiveGroup, hx]
  case fingerprintAuthenticate => simp [body, fingerprintAuthenticate, hx]
  case fingerprintEnroll hat _ _ =>
    cases hat <;> simp [body, fingerprintEnroll, hx]
  case fingerprintPreEnroll => simp [body, fingerprintPreEnroll, hx]
  case fingerprintPostEnroll => simp [body, fingerprintPostEnroll, hx]
  case fingerprintCancel =>
    simp [body, fingerprintCancel, hx]
    rintro _ _ (_ | t) <;> simp
  case fingerprintCancelLoop => simp [body, fingerprintCancelLoop, hx]
  case fingerprintEnumerate => simp [body, fingerprintEnumerate, hx]
  case fingerprintRemove fid _ =>
    by_cases hfid : fid = 0
    · simp [body, fingerprintRemove, hx, hfid, order_removeFingers]
    · simp [body, fingerprintRemove, hx, hfid]
  case setNotifyCallback => simp [body, setNotifyCallback, hx]
  case fingerprintClose => simp [body, fingerprintClose, hx]

end bodies

/-! ## The stages and the memory -/

/-- A thread starts with no mutex, and ends with none. -/
def orderRoles : Roles Resp Ret Held where
  protocol c := orderProtocol c
  away := .none
  start _ := .none
  final _ _ x := x = .none

/-- The stages are what the memory says the threads hold. -/
def StagesMatch (s : Hal) (φ : Tid → Held) : Prop :=
  ∀ t mu, (φ t).get mu = true ↔ s.mem.locks mu = some t

/-- Nothing is held. -/
theorem Held.get_none (mu : Mutex) : Held.none.get mu = false := by cases mu <;> rfl

/-- The mutex an operation gives up. -/
def givenUp : Op → Option Mutex
  | .unlock mu | .condBlock _ mu => some mu
  | _ => none

/-- An operation takes a mutex, gives one up, or leaves them all alone. -/
theorem locksAfter_cases (t : Tid) (locks : Mutex → Option Tid) (x : Held) (o : Op) :
    (∃ mu, taken o = some mu ∧ locksAfter t locks o = Function.update locks mu (some t) ∧
      heldAfter x o = if x.get mu then none else some (x.set mu true)) ∨
    (∃ mu, givenUp o = some mu ∧ locksAfter t locks o = Function.update locks mu none ∧
      heldAfter x o = some (x.set mu false)) ∨
    (locksAfter t locks o = locks ∧ heldAfter x o = some x) := by
  cases o <;> first
    | exact .inl ⟨_, rfl, rfl, rfl⟩
    | exact .inr (.inl ⟨_, rfl, rfl, rfl⟩)
    | exact .inr (.inr ⟨rfl, rfl⟩)

/-- What is taken was free. -/
theorem free_of_taken {fin : Tid → Bool} {t : Tid} {o : Op} {ch : Choice} {r : Resp o} {m m' : Mem}
    {mu : Mutex} (hact : act fin t o ch m = some (r, m')) (ho : taken o = some mu) :
    m.locks mu = none := by
  cases o <;> cases ho
  case lock => exact (by simpa [act] using hact : _ ∧ _).1
  case condWake => exact (by simpa [act] using hact : (_ ∧ _) ∧ _).1.2
  case condTimedWake => cases ch <;> exact (by simpa [act] using hact : (_ ∧ _) ∧ _).1.2

/-- What is given up was held. -/
theorem get_of_givenUp {entry : Call} {x : Held} {o : Op} {mu : Mutex}
    (h : permits entry x o = true)
    (ho : givenUp o = some mu) : x.get mu = true := by
  cases o <;> cases ho <;> exact h

/-- **One step.** The stages go on matching the memory. -/
theorem StagesMatch.run {s s' : Hal} {φ : Tid → Held} {t : Tid} {e : HalEvent} {y : Held}
    {entry : Call} (hφ : StagesMatch s φ) (hs : Staged orderRoles fine s.pool φ)
    (hr : s.Runs fine t e s') (hy : (orderProtocol entry).next (φ t) e = some y) :
    StagesMatch s' (stagesAfter orderRoles hal φ t e y) := by
  have hlocks : ∀ u mu, (Function.update φ t y u).get mu = true ↔ s'.mem.locks mu = some u := by
    intro u mu
    cases e with
    | op o r =>
      have heff := effect_of_runs hr
      obtain ⟨-, -, m, -, -, ⟨ch, hact⟩, -⟩ := hr.moves
      simp only [orderProtocol_next_op] at hy
      split at hy
      case isFalse => cases hy
      rename_i hpermits
      rw [heff.locks]
      obtain ⟨nu, htaken, hl, hx⟩ | ⟨nu, hgiven, hl, hx⟩ | ⟨hl, hx⟩ :=
        locksAfter_cases t s.mem.locks (φ t) o
      · have hfree : s.mem.locks nu = none := free_of_taken hact htaken
        rw [hx] at hy
        split at hy <;> cases hy
        rw [hl]
        by_cases hut : u = t
        · subst hut
          by_cases hmu : mu = nu <;> simp [Held.get_set, hmu, hφ u]
        · by_cases hmu : mu = nu
          · subst hmu
            simp [hut, hφ u, hfree, Ne.symm hut]
          · simp [hut, hmu, hφ u]
      · have hheld : s.mem.locks nu = some t := (hφ t nu).mp (get_of_givenUp hpermits hgiven)
        rw [hx] at hy
        cases hy
        rw [hl]
        by_cases hut : u = t
        · subst hut
          by_cases hmu : mu = nu <;> simp [Held.get_set, hmu, hφ u]
        · by_cases hmu : mu = nu
          · subst hmu
            simp [hut, hφ u, hheld, Ne.symm hut]
          · simp [hut, hmu, hφ u]
      · rw [hx] at hy
        cases hy
        simpa [hl] using hφ u mu
    | enter c =>
      obtain rfl : φ t = y := by simpa [orderProtocol] using hy
      simpa [mem_of_enters hr] using hφ u mu
    | done c r => exact (not_done_of_fine hr).elim
  intro u mu
  obtain ⟨c, hb, hstart⟩ | ⟨-, heq⟩ := stagesAfter_cases orderRoles hal φ t e y u
  · -- the created thread's name was not in use, so it holds nothing
    have hut : u ≠ t := fun h => hr.mem_pool (h ▸ hr.fresh u c hb)
    rw [← hlocks u mu, Function.update_of_ne hut, hs.away u (hr.fresh u c hb), hstart]
    rfl
  · rw [heq]
    exact hlocks u mu

/-- Every thread starts with no mutex. -/
theorem orderRoles_starts {c : Call} (hc : entryPoints c = true ∨ ∃ w : Worker, c = w.call) :
    orderRoles.Starts fine c := by
  simp only [Roles.Starts, orderRoles, Protocol.follows_call, callRule_order]
  refine ⟨?_, fun _ => rfl⟩
  have hall : ∀ mu, Held.none.mayTake mu = true := fun mu => by cases mu <;> rfl
  obtain hc | ⟨w, rfl⟩ := hc
  · cases c <;> first
      | cases hc; done
      | exact ⟨fun mu _ => hall mu, trivial⟩
      | exact ⟨fun mu _ => hall mu, rfl⟩
  · cases w <;> first
      | exact ⟨fun mu _ => hall mu, trivial⟩
      | exact ⟨fun mu _ => hall mu, rfl⟩

/-- What finds its mutex free is what the protocol relies on. -/
theorem StagesMatch.notOwn {s : Hal} {φ : Tid → Held} {t : Tid} {entry : Call} {o : Op}
    (hφ : StagesMatch s φ) (hfree : ∀ mu, taken o = some mu → s.mem.locks mu = none) :
    notOwn entry (φ t) o := by
  cases o with
  | lock mu =>
    cases mu with
    | vdevLock =>
      intro _ hx
      have hget := (hφ t .vdevLock).mp (by rw [hx]; rfl)
      cases (hfree .vdevLock rfl).symm.trans hget
    | _ => trivial
  | _ => trivial

/-- What happens is what the protocol relies on. -/
theorem notOwn_of_runs {s s' : Hal} {φ : Tid → Held} {t : Tid} {entry : Call} {o : Op}
    {r : Resp o}    (hφ : StagesMatch s φ) (hr : s.Runs fine t (.op o r) s') : notOwn entry (φ t) o := by
  obtain ⟨-, -, m, -, -, ⟨ch, hact⟩, -⟩ := hr.moves
  exact hφ.notOwn fun mu hmu => free_of_taken hact hmu

/-- In every run the stages match the memory. -/
theorem stagesMatch {s₀ s : Hal} (hpool : ∀ t, s₀.pool t = none)
    (hlocks : ∀ mu, s₀.mem.locks mu = none)
    (h : s₀.Reaches fine entryPoints (fun _ _ _ => True) s) :
    ∃ φ, Staged orderRoles fine s.pool φ ∧ StagesMatch s φ := by
  refine State.Reaches.staged (I := StagesMatch) (fun _ => .none) (fun _ => orderProtocol_valid _)
    (fun _ _ _ _ _ _ _ hb => orderRoles_starts (.inr (born_worker hb)))
    (fun c hc => orderRoles_starts (.inl hc))
    ⟨fun t th ht => by simp [hpool t] at ht, fun _ _ => rfl⟩
    (fun t mu => by simp [Held.get_none, hlocks mu]) ?_ ?_
    (fun s φ t th e s' y hs hφ _ _ hr hy _ => hφ.run hs hr hy) h
  · intro s φ t c hs hφ _ ht
    -- a thread starts with what an unused name has
    have hstart : Function.update φ t (orderRoles.start c) = φ := by
      rw [Function.update_eq_self_iff]
      exact (hs.away t ht).symm
    rw [hstart]
    exact hφ
  · intro s φ t th e s' _ hφ _ _ hr
    cases e with
    | op o r => exact notOwn_of_runs hφ hr
    | _ => trivial

/-! ## What holds in every run -/

/-- A thread that is about to do this finds it permitted. -/
theorem permits_of_follows {α : Type} {entry : Call} {p : Code α} {Q : α → Held → Prop} {x : Held}
    {o : Op} {k : Resp o → Code α} (hp : (orderProtocol entry).Follows fine p Q x)
    (hcode : p = .op o k) (ho : notOwn entry x o) : permits entry x o = true := by
  subst hcode
  obtain ⟨r⟩ : Nonempty (Resp o) := inferInstance
  obtain ⟨y, hy, -⟩ := (hp r).next ho
  simp only [orderProtocol_next_op] at hy
  split at hy
  · assumption
  · cases hy

/-- What is permitted is done with its guard held. -/
theorem get_of_guard {entry : Call} {x : Held} {o : Op} {mu : Mutex}
    (h : permits entry x o = true) (hmu : guard entry o = some mu) : x.get mu = true := by
  unfold permits at h
  split at h
  · cases hmu
  · cases hmu
  · cases hmu
  · simp [hmu] at h
    exact h.1

/-- Whoever falls asleep holds nothing. -/
theorem none_of_asleep {entry : Call} {x : Held} {o : Op} (h : permits entry x o = true) (ho : asleep o = true) :
    x = .none := by
  have htake : x.mayTake .vdevLock = true := by
    unfold permits at h
    split at h
    · cases ho
    · cases ho
    · cases ho
    · simp [ho] at h
      exact h.2
  obtain ⟨v, tz, s, tm⟩ := x
  simp [Held.mayTake] at htake
  obtain ⟨⟨⟨rfl, rfl⟩, rfl⟩, rfl⟩ := htake
  rfl

section

variable {s₀ s s' : Hal} {t : Tid}

/-- **Guards.** In every interleaving, an operation with a guard is done by the holder of that
mutex: no two threads are in the framework's callback at once, nor in the database but for what the
worker inserts. -/
theorem guarded (hpool : ∀ t, s₀.pool t = none) (hlocks : ∀ mu, s₀.mem.locks mu = none)
    (h : s₀.Reaches fine entryPoints (fun _ _ _ => True) s) {c : Call} {o : Op} {r : Resp o}
    {mu : Mutex} (hc : s.entry t = some c) (hr : s.Runs fine t (.op o r) s')
    (hmu : guard c o = some mu) : s.mem.locks mu = some t := by
  obtain ⟨φ, hs, hφ⟩ := stagesMatch hpool hlocks h
  obtain ⟨th, -, -, hth, -⟩ := hr.moves
  obtain rfl : th.entry = c := by simpa [State.entry, hth] using hc
  obtain ⟨p, hn, -⟩ := hr.code hth
  obtain ⟨y, hy, -⟩ := (hs.follows t th hth).next (orderProtocol_valid _) hn (notOwn_of_runs hφ hr)
  simp only [orderRoles, orderProtocol_next_op] at hy
  split at hy
  · exact (hφ t mu).mp (get_of_guard ‹_› hmu)
  · cases hy

/-- **Sleepers.** In every interleaving, a thread that waits on a condition variable or for another
thread to end holds no mutex. -/
theorem sleeper_holds_nothing (hpool : ∀ t, s₀.pool t = none)
    (hlocks : ∀ mu, s₀.mem.locks mu = none)
    (h : s₀.Reaches fine entryPoints (fun _ _ _ => True) s) {th : Thread Resp Ret} {o : Op}
    {k : Resp o → Code (Ret th.entry)} (hth : s.pool t = some th) (hcode : th.code = .op o k)
    (ho : asleep o = true) (mu : Mutex) : s.mem.locks mu ≠ some t := by
  obtain ⟨φ, hs, hφ⟩ := stagesMatch hpool hlocks h
  have hown : notOwn th.entry (φ t) o := by
    cases o <;> trivial
  have hnone := none_of_asleep (permits_of_follows (hs.follows t th hth) hcode hown) ho
  intro hmu
  have hget := (hφ t mu).mpr hmu
  rw [hnone, Held.get_none] at hget
  cases hget

end

/-- A system that has Samsung's database, with one finger. -/
def withSamsungDb : Mem := { Mem.zero with legacy := some ⟨[(1, [7])], [[3]]⟩ }

/-- `fingerprint_set_active_group` converts Samsung's database: it inserts the finger with
`vdev->lock` held. -/
theorem guarded_conversion :
    ∃ s s', (Hal.idle withSamsungDb).Reaches fine entryPoints (fun _ _ _ => True) s ∧
      s.Runs fine 1 (.op (.sqlInsert 3 1 true true) sqliteDone) s' ∧
      s.mem.locks .vdevLock = some 1 := by
  obtain ⟨s, p, k, m, hs, hth, hact, rfl⟩ : ∃ s p k m,
      (Hal.idle withSamsungDb).exec fine entryPoints (fun _ _ _ => true)
        (.arrive 1 (.fingerprintSetActiveGroup 3) :: ticks 1 16 ++ .run 1 [.num 100] ::
          ticks 1 2 ++ .run 1 [.num 101] :: ticks 1 1 ++ .run 1 [.num 100] :: ticks 1 7) =
        some s ∧
      s.pool 1 = some ⟨.fingerprintSetActiveGroup 3, p⟩ ∧
      act s.fin 1 (.sqlInsert 3 1 true true) (.num 101) s.mem = some (sqliteDone, m) ∧
      p = .op (.sqlInsert 3 1 true true) k := ⟨_, _, _, _, rfl, rfl, rfl, rfl⟩
  have hreach : (Hal.idle withSamsungDb).Reaches fine entryPoints (fun _ _ _ => True) s :=
    State.Reaches.refl.exec (fun _ _ _ _ => trivial) hs
  have hrun : s.Runs fine 1 (.op (.sqlInsert 3 1 true true) sqliteDone) _ :=
    ⟨⟨_, _, _, hth, .op _ k sqliteDone, ⟨.num 101, hact⟩, rfl⟩, fun _ _ hb => by cases hb⟩
  have hentry : s.entry 1 = some (.fingerprintSetActiveGroup 3) := by rw [State.entry, hth]; rfl
  exact ⟨s, _, hreach, hrun, guarded (fun _ => rfl) (fun _ => rfl) hreach hentry hrun rfl⟩

/-- A `fingerprint_cancel` that waits for the timer's thread has given `timeout.lock` back. -/
theorem sleeper_cancel :
    ∃ (s : Hal) (k : Resp (.pthreadJoin 9) → Code (Ret .fingerprintCancel)),
      s.pool 1 = some ⟨.fingerprintCancel, .op (.pthreadJoin 9) k⟩ ∧
      s.mem.locks .timeoutLock ≠ some 1 := by
  obtain ⟨s, k, hs, hth⟩ : ∃ s k,
      (Hal.idle (Mem.zero.set .timeoutThread (some 9))).exec fine entryPoints (fun _ _ _ => true)
        (.arrive 1 .fingerprintCancel :: ticks 1 6) = some s ∧
      s.pool 1 = some ⟨.fingerprintCancel, .op (.pthreadJoin 9) k⟩ := ⟨_, _, rfl, rfl⟩
  exact ⟨s, k, hth, sleeper_holds_nothing (fun _ => rfl) (fun _ => rfl)
    (State.Reaches.refl.exec (fun _ _ _ _ => trivial) hs) hth rfl rfl .timeoutLock⟩

/-! ## Deadlocks -/

/-- The mutex thread `t` is about to take. -/
def wanted (s : Hal) (t : Tid) : Option Mutex := (s.pool t).bind fun th => acquiring th.code

/-- Thread `t` runs `fingerprint_enroll` and waits for `vdev->lock`, which it holds. -/
def SelfLocked (s : Hal) (t : Tid) : Prop :=
  (∃ hat timeoutSec, s.entry t = some (.fingerprintEnroll hat timeoutSec)) ∧
    wanted s t = some .vdevLock ∧ s.mem.locks .vdevLock = some t

/-- What is neither taking a mutex nor sleeping nor a fault can be done, if the outside answers. -/
theorem act_enabled {fin : Tid → Bool} {t : Tid} {o : Op} {m : Mem} (htaken : taken o = none)
    (hasleep : asleep o = false) (hfault : o ≠ .fault) :
    ∃ ch r m', act fin t o ch m = some (r, m') ∧ spawns o r = none := by
  have hnum : ∀ {n : ℤ}, (Choice.num n).int = Int32.ofInt n := rfl
  cases o <;> first | cases htaken; done | cases hasleep; done | skip
  case fault => exact absurd rfl hfault
  case condSignal c =>
    cases hw : m.waiters c with
    | nil => exact ⟨.tick, (), m, by simp [act, hw], rfl⟩
    | cons u us => exact ⟨.thread u, (), _, by simp [act, hw]; rfl, rfl⟩
  case pthreadCreate w => exact ⟨.num 1, .error 1, m, by simp [act, hnum], rfl⟩
  case qseecomSendCmd req => exact ⟨.reply ⟨0, 0, fun _ => 0⟩, _, m, rfl, rfl⟩
  case sqlCreate gid => exact ⟨.num 1, 1, m, by simp [act, hnum, sqliteOk], rfl⟩
  case sqlDelete gid fid => exact ⟨.num 1, 1, m, by simp [act, hnum, sqliteOk], rfl⟩
  case sqlPrepareInsert gid => exact ⟨.num 1, 1, m, by simp [act, hnum, sqliteOk], rfl⟩
  case sqlInsert gid fid d q => exact ⟨.num 1, 1, m, by simp [act, hnum, sqliteDone], rfl⟩
  case sqlSelect gid => exact ⟨.num 1, none, m, by simp [act, hnum, sqliteOk], rfl⟩
  case sqlStep left =>
    exact ⟨.num 1, 1, m, by simp [act, hnum, sqliteRow, sqliteDone], rfl⟩
  all_goals exact ⟨.tick, _, _, rfl, rfl⟩

/-- A thread that is about to perform what can be done can run. -/
theorem canRun_of_act {s : Hal} {t : Tid} {th : Thread Resp Ret} {o : Op}
    {k : Resp o → Code (Ret th.entry)} (hth : s.pool t = some th) (hcode : th.code = .op o k)
    {ch : Choice} {r : Resp o} {m : Mem} (hact : act s.fin t o ch s.mem = some (r, m))
    (hborn : spawns o r = none) : s.CanRun fine t := by
  refine ⟨.op o r, _, ⟨th, k r, m, hth, ?_, ⟨ch, hact⟩, rfl⟩, fun u c hb => ?_⟩
  · rw [hcode]
    exact .op o k r
  · cases hborn.symm.trans hb

/-- The ranks stay below the number of mutexes. -/
theorem rank_lt (mu : Mutex) : rank mu < 4 := by cases mu <;> decide

section

variable {s₀ s : Hal}

/-- A thread that holds a mutex and waits for nobody goes on, unless it is at a fault. -/
theorem canRun_of_holder {φ : Tid → Held} (hs : Staged orderRoles fine s.pool φ)
    (hφ : StagesMatch s φ) {t : Tid} {mu : Mutex} (hheld : s.mem.locks mu = some t)
    (hwait : ∀ u, ¬ WaitsFor s.mem.locks (wanted s) t u) : s.CanRun fine t ∨ Faulted s t := by
  have hget := (hφ t mu).mpr hheld
  cases hth : s.pool t with
  | none =>
    rw [hs.away t hth] at hget
    cases (Held.get_none mu).symm.trans hget
  | some th =>
    obtain ⟨entry, code⟩ := th
    have hfollows := hs.follows t _ hth
    cases code with
    | ret r =>
      -- a thread that has ended holds nothing
      have hfinal : φ t = .none := hfollows
      rw [hfinal] at hget
      cases (Held.get_none mu).symm.trans hget
    | call c k =>
      refine .inl ⟨.enter c, _, ⟨_, _, _, hth, .enter c k rfl, rfl, rfl⟩, fun u d hb => ?_⟩
      cases hb
    | op o k =>
      by_cases hfault : o = .fault
      · subst hfault
        exact .inr ⟨entry, k, hth⟩
      have hwanted : wanted s t = taken o := by simp [wanted, hth, acquiring]
      have hfree : ∀ nu, taken o = some nu → s.mem.locks nu = none := by
        intro nu hnu
        cases hl : s.mem.locks nu with
        | none => rfl
        | some u => exact (hwait u ⟨nu, hwanted.trans hnu, hl⟩).elim
      have hown : notOwn entry (φ t) o := hφ.notOwn hfree
      have hawake : asleep o = false := by
        cases hsleep : asleep o with
        | false => rfl
        | true =>
          have hnone := none_of_asleep (permits_of_follows hfollows rfl hown) hsleep
          rw [hnone] at hget
          cases (Held.get_none mu).symm.trans hget
      cases htaken : taken o with
      | none =>
        obtain ⟨ch, r, m, hact, hborn⟩ := act_enabled htaken hawake hfault
        exact .inl (canRun_of_act hth rfl hact hborn)
      | some nu =>
        have hnu := hfree nu htaken
        cases o <;> first | cases htaken; done | cases hawake; done | skip
        case lock mu' =>
          cases htaken
          have hact : act s.fin t (.lock nu) .tick s.mem = some ((), s.mem.setLock nu (some t)) :=
            if_pos hnu
          exact .inl (canRun_of_act hth rfl hact rfl)

/-- Whoever takes a mutex out of order is `fingerprint_enroll`, waiting for itself. -/
theorem selfLocked_of_not_inOrder {φ : Tid → Held} (hs : Staged orderRoles fine s.pool φ)
    (hφ : StagesMatch s φ) {t : Tid} (h : ¬ InOrder s.mem.locks (wanted s) rank t) :
    SelfLocked s t := by
  by_contra hself
  refine h fun mu nu hwanted hheld => ?_
  cases hth : s.pool t with
  | none => simp [wanted, hth] at hwanted
  | some th =>
    obtain ⟨entry, code⟩ := th
    have hfollows := hs.follows t _ hth
    have htaken : acquiring code = some mu := by simpa [wanted, hth] using hwanted
    cases code with
    | ret | call => cases htaken
    | op o k =>
      have hown : notOwn entry (φ t) o := by
        cases o with
        | lock mu' =>
          cases mu' with
          | vdevLock =>
            intro hen hx
            cases entry <;> cases hen
            cases htaken
            refine hself ⟨⟨_, _, by rw [State.entry, hth]; rfl⟩, hwanted, ?_⟩
            exact (hφ t .vdevLock).mp (by rw [hx]; rfl)
          | _ => trivial
        | _ => trivial
      have hpermits := permits_of_follows hfollows rfl hown
      have hget := (hφ t nu).mpr hheld
      cases o <;> first | cases htaken; done | skip
      case lock mu' =>
        cases htaken
        exact ((φ t).mayTake_iff mu).mp hpermits nu hget
      case condWake | condTimedWake =>
        rw [none_of_asleep hpermits rfl, Held.get_none] at hget
        cases hget

/-- **Deadlock freedom.** In every interleaving, the chain of waits for mutexes from any thread
that waits ends at one that can go on, at a `fingerprint_enroll` that waits for itself, or at a thread
that has dereferenced a NULL handle, of which the process dies. -/
theorem waits_end_running (hpool : ∀ t, s₀.pool t = none)
    (hlocks : ∀ mu, s₀.mem.locks mu = none)
    (h : s₀.Reaches fine entryPoints (fun _ _ _ => True) s) {t u : Tid}
    (hwait : WaitsFor s.mem.locks (wanted s) t u) :
    ∃ v, Relation.ReflTransGen (WaitsFor s.mem.locks (wanted s)) u v ∧
      (s.CanRun fine v ∨ SelfLocked s v ∨ Faulted s v) := by
  obtain ⟨φ, hs, hφ⟩ := stagesMatch hpool hlocks h
  obtain ⟨v, hv, hend⟩ := @waits_end Tid Mutex s.mem.locks (wanted s) rank 4 rank_lt u
  refine ⟨v, hv, ?_⟩
  obtain hnot | hfree := hend
  · exact .inr (.inl (selfLocked_of_not_inOrder hs hφ hnot))
  · -- whoever is waited for holds a mutex
    obtain ⟨mu, -, hheld⟩ : ∃ mu, True ∧ s.mem.locks mu = some v := by
      obtain rfl | ⟨w, -, mu, -, hheld⟩ := Relation.ReflTransGen.cases_tail hv
      · obtain ⟨mu, -, hheld⟩ := hwait
        exact ⟨mu, trivial, hheld⟩
      · exact ⟨mu, trivial, hheld⟩
    exact (canRun_of_holder hs hφ hheld hfree).imp_right .inr

end

/-- `fingerprint_pre_enroll` waits for `fingerprint_enumerate`. -/
theorem waits_end_preEnroll :
    ∃ s v, Relation.ReflTransGen (WaitsFor s.mem.locks (wanted s)) 1 v ∧
      (s.CanRun fine v ∨ SelfLocked s v ∨ Faulted s v) := by
  obtain ⟨s, hs, hwait⟩ : ∃ s, (Hal.idle .zero).exec fine entryPoints (fun _ _ _ => true)
      (.arrive 1 .fingerprintEnumerate :: ticks 1 2 ++
        .arrive 2 .fingerprintPreEnroll :: ticks 2 3) = some s ∧
      WaitsFor s.mem.locks (wanted s) 2 1 := ⟨_, rfl, .vdevLock, rfl, rfl⟩
  exact ⟨s, waits_end_running (fun _ => rfl) (fun _ => rfl)
    (State.Reaches.refl.exec (fun _ _ _ _ => trivial) hs) hwait⟩

end KlteCommon.Analysis
