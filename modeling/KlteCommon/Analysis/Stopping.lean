import KlteCommon.Analysis.FingerSignal

/-!
# A cancelled worker stops

The workers read images and take new captures for as long as TrustZone asks for them. What ends
that is `tz.state`: each round of every loop tests it.

The ladder: from one test that lets a worker go on to the next, or to its end, it takes no more
than `reserve` steps, whatever TrustZone answers (`leashProtocol_valid`); a test cannot pass while
`tz.state` is `STATE_CANCEL` or what the worker itself has made of it (`Cancelled.own`); so a worker
that is cancelled before its last store of `STATE_IDLE` takes no more than `reserve` steps, has
stored `STATE_IDLE` when it has finished, and until then waits for a mutex or for being woken at
most, unless it has dereferenced a NULL handle (`stops`).
-/

set_option autoImplicit false

namespace KlteCommon.Analysis

open KlteCommon.Computation KlteCommon.Fingerprint

/-! ## What is counted -/

/-- How many steps a worker takes at most from one test that lets it go on to the next. -/
def reserve : ℕ := 160

/-- A worker between two tests that let it go on: how many steps it may still take, its test of
`tz.state`, and how many stores of `STATE_IDLE` outside of `vcs_check_state` are left. -/
structure Leash where
  steps : ℕ
  test : Test
  stores : ℕ

/-- The event lets the worker go on: `vcs_check_state` passes, or a worker's loop finds its state. -/
def Leash.goesOn (x : Leash) (e : HalEvent) : Bool :=
  x.test.passes e ||
    match e with
    | .op (.load .tzState) state =>
      x.test = .out && (state = .stateScan || state = .stateEnroll)
    | _ => false

/-- A reply on which `vcs_enroll` gives up: it stores `STATE_IDLE` once more, not twice. -/
def givesUp : HalEvent → Bool
  | .op (.qseecomSendCmd req) r =>
    req.cmd = .vfmEnrollBegin && r.failed || req.cmd = .vfmEnrollAddImage && r.ret != 0 ||
      req.vendorCmd = .vendorUnknownA && r.failed
  | _ => false

/-- A thread gets past a fault, which none does. -/
def faults : HalEvent → Bool
  | .op .fault _ => true
  | _ => false

/-- The steps that are left after an event. -/
def Leash.stepsAfter (x : Leash) (e : HalEvent) : ℕ :=
  if x.goesOn e then reserve else if faults e then x.steps else x.steps - 1

/-- The stores of `STATE_IDLE` that are left after an event. A worker stores nothing else, joins no
thread and does not clear `tz`. -/
def Leash.storesAfter (x : Leash) : HalEvent → Option ℕ
  | .op (.store .tzState state) _ =>
    if state ≠ .stateIdle ∨ x.stores = 0 then none
    else some (if x.test = .aborting then x.stores else x.stores - 1)
  | .op .clearTz _ | .op (.pthreadJoin _) _ => none
  | e => some (if givesUp e then min x.stores 1 else x.stores)

/-- At least `steps` steps. -/
structure Leash.AtLeast (x : Leash) (steps : ℕ) (test : Test) (stores : ℕ) : Prop where
  steps : steps ≤ x.steps
  test : x.test = test
  stores : x.stores = stores

/-- What follows from at least `steps` steps. -/
@[simp] theorem forall_atLeast {P : Leash → Prop} {steps stores : ℕ} {test : Test} :
    (∀ y : Leash, y.AtLeast steps test stores → P y) ↔ ∀ d, P ⟨d + steps, test, stores⟩ := by
  constructor
  · exact fun h d => h _ ⟨by simp, rfl, rfl⟩
  · rintro h ⟨n, _, _⟩ ⟨hn, rfl, rfl⟩
    have hd := h (n - steps)
    rwa [Nat.sub_add_cancel hn] at hd

/-- What a leash is at least. -/
@[simp] theorem atLeast_mk {n steps stores stores' : ℕ} {test test' : Test} :
    Leash.AtLeast ⟨n, test, stores⟩ steps test' stores' ↔
      steps ≤ n ∧ test = test' ∧ stores = stores' :=
  ⟨fun h => ⟨h.steps, h.test, h.stores⟩, fun h => ⟨h.1, h.2.1, h.2.2⟩⟩

/-! ## The protocol -/

/-- The steps of the procedures without a test. -/
@[reducible] def cost : Call → ℕ
  | .sensorCaptureStart => 1
  | .vcsUpdateAuthToken | .sendEnrollNotice _ _ => 4
  | .vcsUpdateCalData | .vcsGetEnrolledFingerNum | .dbWriteToDb _ _ => 5
  | .sensorUninit => 6
  | .sendAuthenticatedNotice _ => 11
  | _ => 3

/-- The procedures that read no state, but for the last of the teardown. -/
@[reducible] def untested : Call → Bool
  | .vcsUpdateCalData | .sensorCaptureStart | .vcsGetEnrolledFingerNum | .dbWriteToDb _ _ => true
  | .sendErrorNotice _ | .sendAcquiredNotice _ | .sendEnrollNotice _ _ => true
  | .sendAuthenticatedNotice _ | .sensorUninit | .vcsUpdateAuthToken => true
  | _ => false

/-- Where the procedures may be called: there must be as many steps left as they take. -/
def leashCalls (x : Leash) : Call → Prop
  | .getTzState => 3 ≤ x.steps
  | .setTzState state => state = .stateIdle ∧ 3 ≤ x.steps ∧ x.stores ≠ 0
  | .vcsCheckState => 14 ≤ x.steps ∧ x.test = .first ∧ x.stores = 2
  | .vcsStartCapture _ => 124 ≤ x.steps ∧ x.test = .out ∧ x.stores = 2
  | .vcsStartCaptureWait => 110 ≤ x.steps ∧ x.test = .out ∧ x.stores = 2
  | .vcsStartCaptureRead => 150 ≤ x.steps ∧ x.test = .out ∧ x.stores = 2
  | .vcsAuthenticateLoop => 50 ≤ x.steps ∧ x.test = .out ∧ x.stores = 2
  | .vcsEnrollLoop _ _ => 70 ≤ x.steps ∧ x.test = .out ∧ x.stores = 2
  | .vcsAuthenticate | .vcsEnroll => 100 ≤ x.steps ∧ x.test = .out ∧ x.stores = 2
  | .vcsUninit => 15 ≤ x.steps ∧ x.test = .out ∧ x.stores ≠ 0
  | c => untested c = true ∧ cost c ≤ x.steps ∧ x.test = .out

/-- A worker that has read `state` with `get_tz_state`. -/
def Leash.read (x : Leash) (state : WorkerState) : Leash where
  steps := (if x.goesOn (.op (.load .tzState) state) then reserve else x.steps - 2) - 1
  test := x.test.after (.op (.load .tzState) state)
  stores := x.stores

/-- How many steps are left when they return. -/
def leashLeaves (x : Leash) : (c : Call) → Ret c → Leash → Prop
  | .getTzState, state, y => y = x.read state
  | .setTzState _, _, y =>
    y.AtLeast (x.steps - 3) .out (if x.test = .aborting then x.stores else x.stores - 1)
  | .vcsCheckState, ret, y => y.AtLeast (if ret = 0 then 159 else x.steps - 14) .out 2
  | .vcsStartCapture _, _, y => y.AtLeast 79 .out 2
  | .vcsStartCaptureWait, _, y => y.AtLeast 95 .out 2
  | .vcsStartCaptureRead, _, y => y.AtLeast 135 .out 2
  | .vcsAuthenticateLoop, _, y => y.AtLeast 46 .out 2
  | .vcsEnrollLoop _ _, exit, y => y.AtLeast 66 .out (if exit = .returned then 0 else 2)
  | .vcsAuthenticate, _, y | .vcsEnroll, _, y => y.stores = 0
  | .vcsUninit, _, y => y.AtLeast (x.steps - 15) .out (x.stores - 1)
  | c, _, y => y.AtLeast (x.steps - cost c) .out x.stores

/-- The protocol of the workers: every step is taken off what is left, until a test lets the worker
go on. -/
@[simps] def leashProtocol : Protocol Resp Ret Leash where
  assume _ _ := True
  next x e :=
    if x.steps = 0 then none
    else (x.storesAfter e).map fun stores => ⟨x.stepsAfter e, x.test.after e, stores⟩
  pre c x := leashCalls x c
  post c x r y := leashLeaves x c r y

section

variable {x y : Leash} {c : Call} {r : Ret c} {e : HalEvent} {n stores : ℕ} {test : Test}

/-- A call by its contract, behind its entry, which is a step. -/
@[simp ↓] theorem callRule_leash (Q : Ret c → Leash → Prop) :
    leashProtocol.callRule fine c Q ⟨n, test, stores⟩ ↔
      n ≠ 0 ∧ leashCalls ⟨n - 1, test.after (.enter c), stores⟩ c ∧
        ∀ r y, leashLeaves ⟨n - 1, test.after (.enter c), stores⟩ c r y → Q r y := by
  by_cases hn : n = 0 <;>
    simp [Protocol.callRule, fine, leashProtocol, hn, Leash.storesAfter, Leash.stepsAfter,
      faults, Leash.goesOn, givesUp, Test.passes]

/-- Operations that only take a step. -/
def plainStep : Op → Bool
  | .load .tzState | .store .tzState _ | .clearTz | .pthreadJoin _ | .fault => false
  | .qseecomSendCmd req =>
    req.cmd != .vfmEnrollBegin && req.cmd != .vfmEnrollAddImage && req.vendorCmd != .vendorUnknownA
  | _ => true

/-- A step that has nothing to do with the state. -/
@[simp ↓] theorem opRule_plainStep {o : Op} {Q : Resp o → Leash → Prop} (ho : plainStep o = true)
    (hn : n ≠ 0) :
    leashProtocol.opRule o Q ⟨n, test, stores⟩ ↔ ∀ r, Q r ⟨n - 1, test, stores⟩ := by
  have hstage : ∀ r, leashProtocol.next ⟨n, test, stores⟩ (.op o r) =
      some ⟨n - 1, test, stores⟩ := by
    intro r
    cases o with
    | load v => cases v <;> first | cases ho; done | simp [hn, Leash.storesAfter,
        Leash.stepsAfter, faults, Leash.goesOn, givesUp, Test.passes, Test.after]
    | store v a => cases v <;> first | cases ho; done | simp [hn, Leash.storesAfter,
        Leash.stepsAfter, faults, Leash.goesOn, givesUp, Test.passes, Test.after]
    | qseecomSendCmd req =>
      obtain ⟨⟨hbegin, himage⟩, hvendor⟩ : (req.cmd ≠ .vfmEnrollBegin ∧
          req.cmd ≠ .vfmEnrollAddImage) ∧ req.vendorCmd ≠ .vendorUnknownA := by
        simpa [plainStep] using ho
      simp [hn, Leash.storesAfter, Leash.stepsAfter, faults, Leash.goesOn, givesUp, Test.passes,
        Test.after, hbegin, himage, hvendor]
    | _ => first | cases ho; done | simp [hn, Leash.storesAfter, Leash.stepsAfter, faults,
        Leash.goesOn, givesUp, Test.passes, Test.after]
  simp only [Protocol.opRule, Protocol.Takes, hstage, leashProtocol_assume, true_implies]

/-- The look behind the handle takes one step, if it is not the last one. -/
@[simp ↓] theorem leash_ionSbuffer {Q : Unit → Leash → Prop} (hn : n ≠ 0) (hn' : n - 1 ≠ 0) :
    leashProtocol.Follows fine ionSbuffer Q ⟨n, test, stores⟩ ↔ Q () ⟨n - 1, test, stores⟩ := by
  simp [ionSbuffer, op, hn, hn', Leash.storesAfter, Leash.stepsAfter, faults, Leash.goesOn, givesUp,
    Test.passes, Test.after]
  exact fun hQ _ => hQ

end

section bodies

attribute [local simp ↓] load store op call send sameIonSbuffer

attribute [local simp] leashCalls leashLeaves Leash.storesAfter Leash.stepsAfter faults Leash.goesOn
  Leash.read givesUp Test.after Test.passes reserve cost untested plainStep

attribute [local simp ←] Nat.add_assoc

/-- Reading the slots takes a step for each read. -/
theorem leash_readsSlot {α : Type} {p : Code α} {Q : α → Leash → Prop} {k n stores : ℕ} {test : Test}
    (hp : p.AtMost Op.readsSlot k) (hk : k ≤ n) (hQ : ∀ a d, Q a ⟨d + (n - k), test, stores⟩) :
    leashProtocol.Follows fine p Q ⟨n, test, stores⟩ := by
  induction p generalizing k n with
  | ret a =>
    have hret := hQ a k
    rwa [show k + (n - k) = n by omega] at hret
  | op o f ih =>
    obtain _ | k := k
    · exact hp.elim
    obtain ⟨ho, hf⟩ := hp
    have hnext : ∀ r, leashProtocol.next ⟨n, test, stores⟩ (.op o r) =
        some ⟨n - 1, test, stores⟩ := by
      intro r
      have hn : n ≠ 0 := by omega
      cases o with
      | load v => cases v <;> first | (simp [hn]; done) | cases ho
      | _ => cases ho
    refine fun r => .intro (hnext r) (ih r (hf r) (by omega) fun a d => ?_)
    rw [show n - 1 - k = n - (k + 1) by omega]
    exact hQ a d
  | call c f _ => cases k <;> exact hp.elim

/-- The test. -/
theorem leash_checkState (b : ℕ) :
    leashProtocol.Follows fine vcsCheckState (leashLeaves ⟨b + 14, .first, 2⟩ .vcsCheckState)
      ⟨b + 14, .first, 2⟩ := by
  simp [vcsCheckState]
  intro state
  by_cases hidle : state = .stateIdle
  · simp [hidle]
  · simp [hidle]
    intro state
    by_cases hcancel : state = .stateCancel
    · simp [hcancel]
    · simp [hcancel]

/-- One capture. -/
theorem leash_startCapture (t : CInt) (b : ℕ) :
    leashProtocol.Follows fine (vcsStartCapture t) (fun _ y => y.AtLeast 79 .out 2)
      ⟨b + 124, .out, 2⟩ := by
  simp [vcsStartCapture]
  intro _ _ d ret d'
  by_cases hret : ret = 0 <;> simp [hret]

/-- One round of the authentication. -/
theorem leash_authenticateLoop (b : ℕ) :
    leashProtocol.Follows fine vcsAuthenticateLoop (fun _ y => y.AtLeast 46 .out 2)
      ⟨b + 50, .out, 2⟩ := by
  simp [vcsAuthenticateLoop]
  intro state
  by_cases hscan : state = .stateScan
  · subst hscan
    simp
    intro ret d _ now num d'
    refine leash_readsSlot (matchTemplates_atMost ..) (by simp [maxNumFingers]) fun _ d'' => ?_
    simp [maxNumFingers]
    intro resp _ _
    exact leash_readsSlot (findMatched_atMost ..) (by simp) fun _ d'' => by simp
  · simp [hscan]
    split <;> omega

/-- The authentication. -/
theorem leash_authenticate (b : ℕ) :
    leashProtocol.Follows fine vcsAuthenticate (fun _ y => y.stores = 0) ⟨b + 100, .out, 2⟩ := by
  simp [vcsAuthenticate]

/-- One round of the enrollment. -/
theorem leash_enrollLoop (idx : ℤ) (count : CInt) (b : ℕ) :
    leashProtocol.Follows fine (vcsEnrollLoop idx count)
      (fun exit y => y.AtLeast 66 .out (if exit = .returned then 0 else 2)) ⟨b + 70, .out, 2⟩ := by
  simp [vcsEnrollLoop]
  intro state
  refine ⟨fun henroll => ?_, fun _ => by split <;> omega⟩
  simp +contextual [henroll]

/-- The enrollment. -/
theorem leash_enroll (b : ℕ) :
    leashProtocol.Follows fine vcsEnroll (fun _ y => y.stores = 0) ⟨b + 100, .out, 2⟩ := by
  simp [vcsEnroll]
  refine leash_readsSlot (firstFreeSlot_atMost ..) (by simp [maxNumFingers]) fun _ d => ?_
  simp [vcsEnrollCommit, payloadBind, enrollmentPasswordSet, maxNumFingers]
  intro r
  cases hr : r.failed <;> simp
  intro r'
  cases hr' : r'.failed <;> simp +contextual

/-- The teardown. -/
theorem leash_uninit {stores : ℕ} (hstores : stores ≠ 0) (b : ℕ) :
    leashProtocol.Follows fine vcsUninit (fun _ y => y.AtLeast b .out (stores - 1))
      ⟨b + 15, .out, stores⟩ := by
  simp [vcsUninit, hstores]
  intro _ _
  omega

/-- Every body keeps to its leash. -/
theorem leashProtocol_valid : leashProtocol.Valid fine body := by
  rintro c _ ⟨n, test, stores⟩ hx
  cases c
  all_goals simp at hx
  case getTzState =>
    obtain ⟨b, rfl⟩ := Nat.exists_eq_add_of_le' hx
    simp [body, getTzState]
    intro state
    rw [if_neg (by split <;> omega)]
  case setTzState state _ =>
    obtain ⟨rfl, hn, hstores⟩ := hx
    obtain ⟨b, rfl⟩ := Nat.exists_eq_add_of_le' hn
    simp [body, setTzState, hstores]
  case vcsCheckState =>
    obtain ⟨hn, rfl, rfl⟩ := hx
    obtain ⟨b, rfl⟩ := Nat.exists_eq_add_of_le' hn
    exact leash_checkState b
  case vcsStartCaptureWait =>
    obtain ⟨hn, rfl, rfl⟩ := hx
    obtain ⟨b, rfl⟩ := Nat.exists_eq_add_of_le' hn
    simp [body, vcsStartCaptureWait]
    intro ret
    by_cases hret : ret = 0 <;> simp [hret]
  case vcsStartCaptureRead =>
    obtain ⟨hn, rfl, rfl⟩ := hx
    obtain ⟨b, rfl⟩ := Nat.exists_eq_add_of_le' hn
    simp [body, vcsStartCaptureRead]
    intro ret
    by_cases hret : ret = 0 <;> simp [hret]
  case vcsStartCapture t _ =>
    obtain ⟨hn, rfl, rfl⟩ := hx
    obtain ⟨b, rfl⟩ := Nat.exists_eq_add_of_le' hn
    exact leash_startCapture t b
  case vcsAuthenticateLoop =>
    obtain ⟨hn, rfl, rfl⟩ := hx
    obtain ⟨b, rfl⟩ := Nat.exists_eq_add_of_le' hn
    exact leash_authenticateLoop b
  case vcsAuthenticate =>
    obtain ⟨hn, rfl, rfl⟩ := hx
    obtain ⟨b, rfl⟩ := Nat.exists_eq_add_of_le' hn
    exact leash_authenticate b
  case vcsEnrollLoop idx count _ =>
    obtain ⟨hn, rfl, rfl⟩ := hx
    obtain ⟨b, rfl⟩ := Nat.exists_eq_add_of_le' hn
    exact leash_enrollLoop idx count b
  case vcsEnroll =>
    obtain ⟨hn, rfl, rfl⟩ := hx
    obtain ⟨b, rfl⟩ := Nat.exists_eq_add_of_le' hn
    exact leash_enroll b
  case vcsUninit =>
    obtain ⟨hn, rfl, hstores⟩ := hx
    obtain ⟨b, rfl⟩ := Nat.exists_eq_add_of_le' hn
    exact (leash_uninit hstores b).mono fun _ _ h => h
  case vcsGetEnrolledFingerNum =>
    obtain ⟨hn, rfl⟩ := hx
    obtain ⟨b, rfl⟩ := Nat.exists_eq_add_of_le' hn
    refine leash_readsSlot (countFingers_atMost ..) (by simp [maxNumFingers]) fun _ d => ?_
    simp [maxNumFingers]
  all_goals
    obtain ⟨hn, rfl⟩ := hx
    obtain ⟨b, rfl⟩ := Nat.exists_eq_add_of_le' hn
  case vcsUpdateCalData => simp [body, vcsUpdateCalData]
  case vcsUpdateAuthToken => simp [body, vcsUpdateAuthToken, getAuthToken]
  case sensorUninit => simp [body, sensorUninit]
  case sensorCaptureStart => simp [body, sensorCaptureStart]
  case dbWriteToDb => simp [body, dbWriteToDb]
  case sendErrorNotice => simp [body, sendErrorNotice]
  case sendAcquiredNotice => simp [body, sendAcquiredNotice]
  case sendEnrollNotice => simp [body, sendEnrollNotice]
  case sendAuthenticatedNotice => simp [body, sendAuthenticatedNotice]

end bodies

/-! ## What one step does -/

/-- `STATE_IDLE` is stored. -/
def isIdleStore : HalEvent → Prop
  | .op (.store .tzState state) _ => state = .stateIdle
  | _ => False

/-- The stage after an event. -/
theorem leash_next {x y : Leash} {e : HalEvent} (h : leashProtocol.next x e = some y) :
    x.steps ≠ 0 ∧ x.storesAfter e = some y.stores ∧ y.test = x.test.after e ∧
      y.steps = x.stepsAfter e := by
  rw [leashProtocol_next] at h
  split at h
  · cases h
  · rename_i hsteps
    obtain ⟨stores, hstores, rfl⟩ := Option.map_eq_some_iff.mp h
    exact ⟨hsteps, hstores, rfl, rfl⟩

/-- An event either stores `STATE_IDLE` or leaves that it is to be stored. -/
theorem storesAfter_cases {x : Leash} {e : HalEvent} {stores : ℕ}
    (h : x.storesAfter e = some stores) :
    isIdleStore e ∧ x.stores ≠ 0 ∨ ¬ isIdleStore e ∧ (stores = 0 ↔ x.stores = 0) := by
  unfold Leash.storesAfter at h
  split at h
  · split at h
    · cases h
    · rename_i hstore
      obtain ⟨hidle, hne⟩ := not_or.mp hstore
      exact .inl ⟨not_not.mp hidle, hne⟩
  · cases h
  · cases h
  · rename_i hother _ _
    refine .inr ⟨fun hidle => ?_, ?_⟩
    · unfold isIdleStore at hidle
      split at hidle
      · exact hother _ _ rfl
      · exact hidle
    · obtain rfl := Option.some.inj h
      split <;> omega

/-- A worker has no more steps left than `reserve`. -/
theorem steps_le_of_stage {es : List HalEvent} {y : Leash}
    (h : leashProtocol.stage ⟨reserve, .out, 2⟩ es = some y) : y.steps ≤ reserve := by
  induction es generalizing y with
  | nil =>
    cases h
    exact Nat.le_refl _
  | cons e es ih =>
    obtain ⟨x, hx, hy⟩ := Option.bind_eq_some_iff.mp h
    have hle := ih hx
    obtain ⟨-, -, -, hsteps⟩ := leash_next hy
    rw [hsteps, Leash.stepsAfter]
    split
    · exact Nat.le_refl _
    · split <;> omega

/-- Code behind its last store of `STATE_IDLE` cannot store it. -/
theorem not_can_of_stores {α : Type} {p : Code α} {Q : α → Leash → Prop} {y : Leash}
    (hp : leashProtocol.Follows fine p Q y) (hy : y.stores = 0) :
    ¬ Can hal fine isIdleStore p := by
  rintro ⟨es, q, hpath, e, he, hidle⟩
  induction hpath generalizing y with
  | nil => cases he
  | @cons p p' q e' es hn _ ih =>
    obtain ⟨z, hz, hp'⟩ := hp.next leashProtocol_valid hn trivial
    obtain ⟨-, hstores, -, -⟩ := leash_next hz
    obtain ⟨-, hne⟩ | ⟨hnot, hiff⟩ := storesAfter_cases hstores
    · exact hne hy
    · obtain rfl | he := List.mem_cons.mp he
      · exact hnot hidle
      · exact ih hp' (hiff.mpr hy) he

/-! ## After the cancellation -/

/-- A cancelled worker that has done `es` since: `tz.state` is `STATE_CANCEL` until it stores
`STATE_IDLE`, which it does not do between the two reads of a test. -/
def Cancelled (y : Leash) (es : List HalEvent) (m : Mem) : Prop :=
  m.tz.state = .stateCancel ∧ y.stores ≠ 0 ∨
    m.tz.state = .stateIdle ∧ y.test ≠ .second ∧ ∃ e ∈ es, isIdleStore e

/-- An operation that does not touch `tz.state` has no part in the tests. -/
theorem leash_other {x : Leash} {o : Op} {r : Resp o} (hload : o ≠ .load .tzState)
    (hstore : ∀ state, o ≠ .store .tzState state) (hclear : o ≠ .clearTz) :
    (∀ state, stateAfter state o = state) ∧ x.goesOn (.op o r) = false ∧
      x.test.after (.op o r) = x.test := by
  cases o with
  | load v => cases v <;> first | exact absurd rfl hload | exact ⟨fun _ => rfl, rfl, rfl⟩
  | store v a => cases v <;> first | exact absurd rfl (hstore a) | exact ⟨fun _ => rfl, rfl, rfl⟩
  | clearTz => exact absurd rfl hclear
  | _ => exact ⟨fun _ => rfl, rfl, rfl⟩

/-- A test does not pass while `tz.state` is `STATE_CANCEL`, or `STATE_IDLE` from its first read
on. -/
theorem not_goesOn {x : Leash} {es : List HalEvent} {m : Mem} (h : Cancelled x es m) :
    x.goesOn (.op (.load .tzState) m.tz.state) = false := by
  obtain ⟨hstate, -⟩ | ⟨hstate, htest, -⟩ := h
  · simp [Leash.goesOn, Test.passes, hstate]
  · simp [Leash.goesOn, Test.passes, hstate, htest]

/-- **One step of a cancelled worker** takes it one step closer to its end. -/
theorem Cancelled.own {x y : Leash} {es : List HalEvent} {m m' : Mem} {fin : Tid → Bool} {t : Tid}
    {o : Op} {r : Resp o} {ch : Choice} (h : Cancelled x es m) (hact : act fin t o ch m = some (r, m'))
    (hy : leashProtocol.next x (.op o r) = some y) :
    Cancelled y (.op o r :: es) m' ∧ y.steps + 1 = x.steps := by
  obtain ⟨hsteps, hstores, htest, hleft⟩ := leash_next hy
  have hstate := (act_effect hact).state
  have hclose : x.goesOn (.op o r) = false → y.steps + 1 = x.steps := by
    intro hgo
    have hfault : faults (.op o r) = false := by
      cases o <;> first | rfl | cases hact
    rw [hleft, Leash.stepsAfter, hgo, hfault, if_neg Bool.false_ne_true, if_neg Bool.false_ne_true]
    omega
  obtain ⟨hidle, hne⟩ | ⟨hnot, hiff⟩ := storesAfter_cases hstores
  · obtain rfl : o = .store .tzState .stateIdle := by
      unfold isIdleStore at hidle
      split at hidle
      · rename_i heq
        cases heq
        rw [hidle]
      · exact hidle.elim
    refine ⟨.inr ⟨hstate, ?_, _, List.mem_cons_self, rfl⟩, hclose ?_⟩
    · rw [htest]
      exact fun h => Test.noConfusion h
    · simp [Leash.goesOn, Test.passes]
  · by_cases hload : o = .load .tzState
    · subst hload
      obtain ⟨rfl, rfl⟩ : m.tz.state = r ∧ m = m' := by simpa [act, Mem.get] using hact
      refine ⟨?_, hclose (not_goesOn h)⟩
      obtain ⟨hcancel, hne⟩ | ⟨hidle, hsecond, e, he, hdone⟩ := h
      · exact .inl ⟨hcancel, fun h => hne (hiff.mp h)⟩
      · refine .inr ⟨hidle, ?_, e, List.mem_cons_of_mem _ he, hdone⟩
        rw [htest, hidle]
        cases hx : x.test <;> simp [Test.after, hx] at hsecond ⊢
    · have hstore : ∀ state, o ≠ .store .tzState state := by
        rintro state rfl
        refine hnot (not_not.mp fun hne => ?_)
        simp [Leash.storesAfter, show state ≠ .stateIdle from hne] at hstores
      have hclear : o ≠ .clearTz := by
        rintro rfl
        cases hstores
      obtain ⟨hsame, hgo, hafter⟩ := leash_other (x := x) (r := r) hload hstore hclear
      rw [hsame] at hstate
      refine ⟨?_, hclose hgo⟩
      obtain ⟨hcancel, hne⟩ | ⟨hidle, hsecond, e, he, hdone⟩ := h
      · exact .inl ⟨hstate.trans hcancel, fun h => hne (hiff.mp h)⟩
      · exact .inr ⟨hstate.trans hidle, by rwa [htest, hafter], e, List.mem_cons_of_mem _ he, hdone⟩

/-- A step of a worker that was cancelled. -/
theorem Cancelled.run {x y : Leash} {es : List HalEvent} {s s' : Hal} {t : Tid} {e : HalEvent}
    (h : Cancelled x es s.mem) (hr : s.Runs fine t e s') (hy : leashProtocol.next x e = some y) :
    Cancelled y (e :: es) s'.mem ∧ y.steps + 1 = x.steps := by
  cases e with
  | op o r =>
    obtain ⟨th, p, m, -, -, ⟨ch, hact⟩, rfl⟩ := hr.moves
    exact h.own hact hy
  | enter c =>
    obtain ⟨hsteps, hstores, htest, hleft⟩ := leash_next hy
    have hgo : x.goesOn (.enter c) = false := rfl
    have hfault : faults (.enter c) = false := rfl
    rw [Leash.stepsAfter, hgo, hfault, if_neg Bool.false_ne_true, if_neg Bool.false_ne_true] at hleft
    refine ⟨?_, by omega⟩
    rw [mem_of_enters hr]
    obtain ⟨hcancel, hne⟩ | ⟨hidle, hsecond, e, he, hdone⟩ := h
    · exact .inl ⟨hcancel, Option.some.inj hstores ▸ hne⟩
    · refine .inr ⟨hidle, ?_, e, List.mem_cons_of_mem _ he, hdone⟩
      rw [htest]
      cases c <;> first | exact hsecond | exact fun h => Test.noConfusion h
  | done c r => exact (not_done_of_fine hr).elim

/-! ## What a worker waits for -/

/-- The memory when every mutex is free and nobody is asleep. -/
def Mem.released (m : Mem) : Mem := { m with locks := fun _ => none, waiters := fun _ => [] }

/-- The thread can take a step as soon as the mutexes are free and it has been woken. -/
def Unblocked {α : Type} (fin : Tid → Bool) (t : Tid) (p : Code α) (m : Mem) : Prop :=
  ∃ e q m', hal.Next fine p e q ∧ hal.Acts fin t e (Mem.released m) m'

/-- Nothing but the end of another thread is waited for otherwise, and only a fault goes no
further. -/
theorem act_released (fin : Tid → Bool) (t : Tid) {o : Op} (ho : ∀ u, o ≠ .pthreadJoin u)
    (hfault : o ≠ .fault) (m : Mem) :
    ∃ ch r m', act fin t o ch (Mem.released m) = some (r, m') := by
  cases o
  case pthreadJoin u => exact absurd rfl (ho u)
  case fault => exact absurd rfl hfault
  case pthreadCreate => exact ⟨.thread 0, _, _, rfl⟩
  case qseecomSendCmd => exact ⟨.reply .lost, _, _, rfl⟩
  case sqlCreate => exact ⟨.num 1, _, _, rfl⟩
  case sqlDelete => exact ⟨.num 1, _, _, rfl⟩
  case sqlPrepareInsert => exact ⟨.num 1, _, _, rfl⟩
  case sqlInsert => exact ⟨.num 1, _, _, rfl⟩
  case sqlSelect => exact ⟨.num 1, _, _, rfl⟩
  case sqlStep => exact ⟨.num 1, _, _, rfl⟩
  all_goals exact ⟨.tick, _, _, rfl⟩

/-- A worker that has not finished and is not at a fault waits for nothing else. -/
theorem unblocked_of_follows {α : Type} {p : Code α} {Q : α → Leash → Prop} {y : Leash}
    (hp : leashProtocol.Follows fine p Q y) (hunfinished : p.finished = false)
    (hsound : ∀ k, p ≠ .op .fault k) (fin : Tid → Bool) (t : Tid) (m : Mem) :
    Unblocked fin t p m := by
  cases p with
  | ret a => cases hunfinished
  | op o k =>
    have hfault : o ≠ .fault := by
      rintro rfl
      exact hsound k rfl
    have hjoin : ∀ u, o ≠ .pthreadJoin u := by
      rintro u rfl
      obtain ⟨z, hz, -⟩ := hp.next leashProtocol_valid (M := hal) (.op _ k ()) trivial
      cases (leash_next hz).2.1
    obtain ⟨ch, r, m', hact⟩ := act_released fin t hjoin hfault m
    exact ⟨_, _, m', .op o k r, ch, hact⟩
  | call c k => exact ⟨_, _, _, .enter c k rfl, rfl⟩

/-! ## Every run -/

/-- Thread `t` stops between `s` and `s'`: it takes no more than `reserve` steps, with what it sends
among them; when it has finished it has stored `STATE_IDLE` last, and until then it waits for a
mutex or for being woken at most, unless it has dereferenced a NULL handle. -/
def StopsWithin (t : Tid) (c : Call) (s s' : Hal) : Prop :=
  ∃ p es, s'.pool t = some ⟨c, p⟩ ∧ s'.own t = es ++ s.own t ∧ es.length ≤ reserve ∧
    (p.finished = true → s'.mem.tz.state = .stateIdle ∧ ∃ e ∈ es, isIdleStore e) ∧
    (p.finished = false → Unblocked s'.fin t p s'.mem ∨ Faulted s' t)

/-- The condition on a step: the other threads leave `tz.state`. -/
def leavesState (t : Tid) (s : Hal) (u : Tid) (e : HalEvent) : Prop :=
  u ≠ t → ∀ o r, e = .op o r → stateAfter s.mem.tz.state o = s.mem.tz.state

/-- A step that leaves the state. -/
theorem state_of_leaves {s s' : Hal} {u : Tid} {e : HalEvent} (hr : s.Runs fine u e s')
    (h : ∀ o r, e = .op o r → stateAfter s.mem.tz.state o = s.mem.tz.state) :
    s'.mem.tz.state = s.mem.tz.state := by
  cases e with
  | op o r => rw [(effect_of_runs hr).state, h o r rfl]
  | enter d => rw [mem_of_enters hr]
  | done d r => exact (not_done_of_fine hr).elim

/-- **Cancellation stops the worker**, whatever TrustZone answers: when a worker that still has to
store `STATE_IDLE` is cancelled in any state of any run, and no other thread changes `tz.state`
from then on, it takes no more than `reserve` steps until it returns. -/
theorem stops {m : Mem} {arrives : Call → Bool} {ok : Hal → Tid → HalEvent → Prop} {s s' : Hal}
    {t : Tid} {c : Call} {p : Code (Ret c)} (hc : imageWorker c = true)
    (h₀ : (Hal.idle m).Reaches fine arrives ok s) (ht : s.pool t = some ⟨c, p⟩)
    (hcan : Can hal fine isIdleStore p) (hcancel : s.mem.tz.state = .stateCancel)
    (h : s.Reaches fine arrives (leavesState t) s') : StopsWithin t c s s' := by
  have hstart : leashProtocol.Follows fine (.call c .ret) (fun _ y => y.stores = 0)
      ⟨reserve, .out, 2⟩ := by
    cases c <;> first
      | cases hc; done
      | exact (callRule_leash _).mpr ⟨by decide, ⟨by decide, rfl, rfl⟩, fun _ _ h => h⟩
  obtain ⟨x, hx, hp⟩ := h₀.follows leashProtocol_valid hstart (A := fun _ => True)
    (fun _ _ _ => trivial) (fun _ _ _ _ _ => trivial) (fun _ => rfl) rfl ht
  have hstores : x.stores ≠ 0 := fun hx => not_can_of_stores hp hx hcan
  obtain ⟨q, es, y, hq, hown, hfollows, hcancelled, hsteps⟩ :
      ∃ q es y, s'.pool t = some ⟨c, q⟩ ∧ s'.own t = es ++ s.own t ∧
        leashProtocol.Follows fine q (fun _ y => y.stores = 0) y ∧ Cancelled y es s'.mem ∧
        y.steps + es.length ≤ reserve := by
    refine h.invariant (I := fun s' : Hal => ∃ q es y, s'.pool t = some ⟨c, q⟩ ∧
      s'.own t = es ++ s.own t ∧ leashProtocol.Follows fine q (fun _ y => y.stores = 0) y ∧
      Cancelled y es s'.mem ∧ y.steps + es.length ≤ reserve) ?_ ?_ ?_
    · exact ⟨p, [], x, ht, rfl, hp, .inl ⟨hcancel, hstores⟩, steps_le_of_stage hx⟩
    · rintro s₁ u d ⟨q, es, y, hq, hrest⟩ - hu
      refine ⟨q, es, y, ?_, hrest⟩
      rw [State.pool_add, if_neg, hq]
      rintro rfl
      rw [hu] at hq
      cases hq
    · rintro s₁ u e s₂ ⟨q, es, y, hq, hown, hfollows, hcancelled, hsteps⟩ ho hr
      by_cases hut : u = t
      · subst hut
        obtain ⟨q', hn, hq'⟩ := hr.code hq
        obtain ⟨z, hz, hfollows'⟩ := hfollows.next leashProtocol_valid hn trivial
        obtain ⟨hcancelled', hcloser⟩ := hcancelled.run hr hz
        refine ⟨q', e :: es, z, hq', ?_, hfollows', hcancelled', ?_⟩
        · rw [hr.own, if_pos rfl, hown]
          rfl
        · rw [List.length_cons]
          omega
      · refine ⟨q, es, y, hr.pool_of_ne (Ne.symm hut) hq, ?_, hfollows, ?_, hsteps⟩
        · rw [hr.own, if_neg (Ne.symm hut), hown]
        · rwa [Cancelled, state_of_leaves hr (ho hut)]
  refine ⟨q, es, hq, hown, by omega, fun hfin => ?_, fun hfin => ?_⟩
  · cases q with
    | ret a =>
      obtain ⟨-, hne⟩ | ⟨hidle, -, hdone⟩ := hcancelled
      · exact absurd hfollows hne
      · exact ⟨hidle, hdone⟩
    | _ => cases hfin
  · by_cases hsound : ∀ k, q ≠ .op .fault k
    · exact .inl (unblocked_of_follows hfollows hfin hsound _ t _)
    · obtain ⟨k, rfl⟩ := not_forall_not.mp hsound
      exact .inr ⟨c, k, hq⟩

/-- An authentication that is cancelled before it waits for the finger. -/
theorem stops_cancelled :
    ∃ s s', (Hal.idle scanningDevice).Reaches fine (fun _ => true) (fun _ _ _ => True) s ∧
      s.mem.tz.state = .stateCancel ∧ s.Reaches fine (fun _ => true) (leavesState 1) s' ∧
      s'.fin 1 = true ∧ StopsWithin 1 .vcsAuthenticate s s' := by
  obtain ⟨s, p, hs, hp, hcancel, s', p', hs', hp', hfin, hown, e, e', earlier, hes, he⟩ :
      ∃ s p,
      (Hal.idle scanningDevice).exec fine (fun _ => true) (fun _ _ _ => true)
        (.arrive 1 .vcsAuthenticate :: ticks 1 2 ++ answer 1 (.good 0) ++ ticks 1 7 ++
          answer 1 (.good 0) ++ ticks 1 2 ++ answer 1 .lost ++ ticks 1 4 ++
          .arrive 2 .fingerprintCancel :: ticks 2 14) = some s ∧
      s.pool 1 = some ⟨.vcsAuthenticate, p⟩ ∧ s.mem.tz.state = .stateCancel ∧ ∃ s' p',
      s.exec fine (fun _ => true) (fun _ t _ => t == 1)
        (ticks 1 12 ++ answer 1 .lost ++ ticks 1 16 ++ answer 1 .lost ++ ticks 1 11) = some s' ∧
      s'.pool 1 = some ⟨.vcsAuthenticate, p'⟩ ∧ s'.fin 1 = true ∧
      s'.own 1 = (s'.own 1).take 41 ++ s.own 1 ∧
      ∃ e e' earlier, (s'.own 1).take 41 = e' :: e :: earlier ∧ isIdleStore e :=
    ⟨_, _, rfl, rfl, rfl, _, _, rfl, rfl, rfl, rfl, _, _, _, rfl, rfl⟩
  have h : (Hal.idle scanningDevice).Reaches fine (fun _ => true) (fun _ _ _ => True) s :=
    State.Reaches.refl.exec (fun _ _ _ _ => trivial) hs
  have h' : s.Reaches fine (fun _ => true) (leavesState 1) s' :=
    State.Reaches.refl.exec (fun _ _ _ h hne => absurd (beq_iff_eq.mp h) hne) hs'
  have hcan := h.can (E := isIdleStore) (fun _ => rfl) rfl (h.exec (fun _ _ _ _ => trivial) hs') hp hp'
    hown ⟨e, by simp [hes], he⟩
  exact ⟨s, s', h, hcancel, h', hfin, stops rfl h hp hcan hcancel h'⟩

end KlteCommon.Analysis
