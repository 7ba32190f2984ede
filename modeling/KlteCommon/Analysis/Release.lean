import KlteCommon.Computation.Paths
import KlteCommon.Fingerprint.Bystanders
import KlteCommon.Fingerprint.Loops

/-!
# What a worker gives back

A worker is started with the sensor powered, the app running at high bandwidth and a busy
`tz.state`, and is to end with all of that undone, the app shut down once. `Release` is what of
it is undone.

The ladder: the common end of both workers undoes everything, the three early returns of
`vcs_enroll` only the state (`releaseProtocol_valid`); what is undone stays undone, since no other
thread touches it, but for the state, which may become `STATE_CANCEL` again after the worker's
last store. So, in every run in which it is not stored that late, a finished worker has released
everything just when it did not return early (`released_iff`). It does when TrustZone refuses to
begin (`abandoned`).
-/

set_option autoImplicit false

namespace KlteCommon.Analysis

open KlteCommon.Computation KlteCommon.Fingerprint

/-! ## What is observed -/

/-- The bandwidth is lowered. -/
def lowers : HalEvent → Bool
  | .op (.qseecomSetBandwidth high) _ => !high
  | _ => false

/-- The app is shut down. -/
def shutsDown : HalEvent → Bool
  | .op .qseecomShutdownApp _ => true
  | _ => false

/-- `STATE_IDLE` is stored. -/
def storesStateIdle : HalEvent → Bool
  | .op (.store .tzState state) _ => state == .stateIdle
  | _ => false

/-- Everything thread `w` was given is released. -/
structure Released (w : Tid) (s : Hal) : Prop where
  sensor : s.mem.sensor.init = false
  app : s.mem.tz.init = false
  state : s.mem.tz.state = .stateIdle
  lowered : (s.own w).countP lowers = 1
  shutDown : (s.own w).countP shutsDown = 1

/-- A reply that makes `vcs_enroll` return early. -/
def abandons : HalEvent → Bool
  | .op (.qseecomSendCmd req) r =>
    match req.cmd, req.vendorCmd with
    | .vfmEnrollBegin, _ => r.failed
    | .vfmVendorDefinedOperation, .vendorUnknownA => r.failed
    | .vfmEnrollAddImage, _ => r.ret != 0
    | _, _ => false
  | _ => false

/-- The worker is bound to store `STATE_IDLE` yet. -/
def WillIdle (w : Tid) (s : Hal) : Prop :=
  ∀ th, s.pool w = some th → Will hal fine (fun _ => True) (storesStateIdle · = true) th.code

/-- The condition on a step: `STATE_CANCEL` is stored only while the state is busy or the worker
is bound to store `STATE_IDLE` yet. -/
def cancelsInTime (w : Tid) (s : Hal) (t : Tid) (e : HalEvent) : Prop :=
  t ≠ w → (∃ r, e = .op (.store .tzState .stateCancel) r) →
    s.mem.tz.state ≠ .stateIdle ∨ WillIdle w s

/-! ## The protocol -/

/-- What a worker has undone: whether it returns early, whether the sensor is off, how often it
has lowered the bandwidth and shut the app down, whether `tz.init` is false, and whether it has
stored `STATE_IDLE`. -/
structure Release where
  early : Bool
  sensorOff : Bool
  lowered : ℕ
  shutDown : ℕ
  appOff : Bool
  idle : Bool

namespace Release

/-- Nothing is undone. -/
def none : Release := ⟨false, false, 0, 0, false, false⟩

/-- Everything is. -/
def all : Release := ⟨false, true, 1, 1, true, true⟩

/-- One event of a worker. -/
def next (x : Release) : HalEvent → Option Release
  | .op (.qseecomSendCmd req) r =>
    some { x with early := x.early || abandons (.op (.qseecomSendCmd req) r) }
  | .op (.load .sensorInit) r => some { x with sensorOff := x.sensorOff || !r }
  | .op (.store .sensorInit b) _ => some { x with sensorOff := !b }
  | .op (.qseecomSetBandwidth high) _ =>
    if high then .none else some { x with lowered := x.lowered + 1 }
  | .op .qseecomShutdownApp _ => some { x with shutDown := x.shutDown + 1 }
  | .op (.store .tzInit b) _ => some { x with appOff := !b }
  | .op (.store .tzState state) _ =>
    if state = .stateIdle then some { x with idle := true } else .none
  | .op .clearTz _ | .op .clearSensor _ | .op (.pthreadCreate _) _ => .none
  | .done _ _ => .none
  | _ => some x

/-- The worker creates no thread. -/
theorem not_born {x y : Release} {e : HalEvent} (h : x.next e = some y) : hal.born e = .none := by
  cases e with
  | op o r => cases o <;> first | rfl | cases h
  | enter c | done c r => rfl

end Release

/-- Which procedures a worker calls in which stage. -/
def releaseCalls (x : Release) : Call → Prop
  | .vcsAuthenticate | .vcsEnroll => x = .none
  | .setTzState state => state = .stateIdle
  | .vcsAuthenticateLoop | .vcsEnrollLoop _ _ | .getTzState | .vcsUpdateCalData => True
  | .vcsCheckState | .vcsStartCapture _ | .vcsStartCaptureWait | .vcsStartCaptureRead => True
  | .sensorCaptureStart | .vcsGetEnrolledFingerNum => True
  | .sendErrorNotice _ | .sendAcquiredNotice _ | .sendEnrollNotice _ _ => True
  | .sendAuthenticatedNotice _ | .dbWriteToDb _ _ => True
  | .sensorUninit | .vcsUninit | .vcsUpdateAuthToken => True
  | _ => False

/-- The stages a procedure may be left in. -/
def releaseLeaves (x : Release) : (c : Call) → Ret c → Release → Prop
  | .vcsAuthenticate, _, y => y = .all
  | .vcsEnroll, _, y => y = .all ∨ y.early = true ∧ y.idle = true ∧ y.shutDown = 0
  | .vcsEnrollLoop _ _, r, y =>
    if r = .returned then y = { x with early := true, idle := true }
    else ∃ idle, y = { x with idle := idle }
  | .vcsAuthenticateLoop, _, y | .vcsCheckState, _, y | .vcsStartCapture _, _, y =>
    ∃ idle, y = { x with idle := idle }
  | .vcsStartCaptureWait, _, y | .vcsStartCaptureRead, _, y => ∃ idle, y = { x with idle := idle }
  | .setTzState _, _, y => y = { x with idle := true }
  | .sensorUninit, _, y => y = { x with sensorOff := true }
  | .vcsUninit, _, y =>
    y = { x with lowered := x.lowered + 1, shutDown := x.shutDown + 1, appOff := true, idle := true }
  | _, _, y => y = x

/-- The protocol of a worker. -/
@[simps] def releaseProtocol : Protocol Resp Ret Release where
  assume _ _ := True
  next := Release.next
  pre c x := releaseCalls x c
  post c x r y := releaseLeaves x c r y

section

variable (x y : Release) (c : Call) (r : Ret c) (e : HalEvent)

/-- A call by its contract. -/
@[simp ↓] theorem callRule_release (Q : Ret c → Release → Prop) :
    releaseProtocol.callRule fine c Q x ↔
      releaseCalls x c ∧ ∀ r y, releaseLeaves x c r y → Q r y := by
  simp [Protocol.callRule, fine, releaseProtocol, Release.next]

end

/-! ## The bodies keep to it -/

section bodies

attribute [local simp ↓] load store op call send ionSbuffer sameIonSbuffer

attribute [local simp] releaseCalls releaseLeaves Release.next abandons Release.none Release.all

/-- Code that only reads the slots keeps the stage. -/
theorem release_readsSlot {α : Type} {p : Code α} {Q : α → Release → Prop} {x : Release}
    (hp : p.Within Op.readsSlot fun _ => False) (hQ : ∀ a, Q a x) :
    releaseProtocol.Follows fine p Q x := by
  refine .frame hp (fun o ho r => ?_) hQ
  cases o with
  | load v => cases v <;> first | rfl | exact ho.elim
  | _ => exact ho.elim

/-- The commit of an enrollment keeps the stage. -/
theorem release_enrollCommit {idx : ℤ} {Q : Unit → Release → Prop} {x : Release} (hQ : Q () x) :
    releaseProtocol.Follows fine (vcsEnrollCommit idx) Q x := by
  simp [vcsEnrollCommit, payloadBind, enrollmentPasswordSet, hQ]

/-- Every body keeps to the contracts. -/
theorem releaseProtocol_valid : releaseProtocol.Valid fine body := by
  intro c _ x hx
  obtain ⟨early, sensorOff, lowered, shutDown, appOff, idle⟩ := x
  cases c
  all_goals simp at hx
  case getTzState => simp [body, getTzState]
  case setTzState => simp [body, setTzState, hx]
  case vcsUpdateCalData => simp [body, vcsUpdateCalData]
  case vcsCheckState => simp [body, vcsCheckState]
  case vcsStartCapture => simp [body, vcsStartCapture]
  case vcsStartCaptureWait => simp [body, vcsStartCaptureWait]
  case vcsStartCaptureRead => simp [body, vcsStartCaptureRead]
  case vcsAuthenticate => simp [body, vcsAuthenticate, hx]
  case vcsAuthenticateLoop =>
    simp [body, vcsAuthenticateLoop, -Bool.exists_bool, -Bool.forall_bool]
    intro _ _ _ _ _
    refine release_readsSlot (matchTemplates_within ..) fun _ => ?_
    simp
    intro _ _ _
    exact release_readsSlot (findMatched_within ..) fun _ => by simp
  case vcsEnroll =>
    obtain ⟨rfl, rfl, rfl, rfl, rfl, rfl⟩ := hx
    refine .bind (follows_ionSbuffer (by simp) (by simp) ?_)
    refine .bind (release_readsSlot (firstFreeSlot_within ..) fun _ => ?_)
    simp
    intro r
    by_cases hr : r.failed = true
    · simp [hr]
    simp [hr]
    intro r
    by_cases hr : r.failed = true
    · simp [hr]
    simp [hr]
    rintro (_ | _ | _)
    · simp
    · simp
    · simp
      exact ⟨release_enrollCommit (by simp), release_enrollCommit (by simp)⟩
  case vcsEnrollLoop =>
    simp [body, vcsEnrollLoop, -Bool.exists_bool, -Bool.forall_bool]
    intro _ _ r
    by_cases hret : r.ret = 0
    · simp [hret, -Bool.exists_bool]
    · simp [hret]
  case vcsGetEnrolledFingerNum =>
    exact release_readsSlot (countFingers_within ..) fun num => by simp
  case vcsUpdateAuthToken => simp [body, vcsUpdateAuthToken, getAuthToken]
  case vcsUninit => simp [body, vcsUninit]
  case sensorUninit => simp [body, sensorUninit]
  case sensorCaptureStart => simp [body, sensorCaptureStart]
  case dbWriteToDb => simp [body, dbWriteToDb]
  case sendErrorNotice => simp [body, sendErrorNotice]
  case sendAcquiredNotice => simp [body, sendAcquiredNotice]
  case sendEnrollNotice => simp [body, sendEnrollNotice]
  case sendAuthenticatedNotice => simp [body, sendAuthenticatedNotice]

end bodies

/-- A worker that has not stored `STATE_IDLE` is bound to. -/
theorem release_will {α : Type} {p : Code α} {Q : α → Release → Prop} {x : Release}
    (hp : releaseProtocol.Follows fine p Q x) (hQ : ∀ a y, Q a y → y.idle = true)
    (hx : x.idle = false) : Will hal fine (fun _ => True) (storesStateIdle · = true) p := by
  refine hp.will releaseProtocol_valid (fun _ _ _ => trivial) (D := fun x => x.idle = false) ?_
    (fun a y hy => by simp [hQ a y hy]) hx
  intro x e y hx hy
  replace hy : x.next e = some y := hy
  unfold Release.next at hy
  split at hy
  case h_7 =>
    split at hy <;> cases hy
    rename_i hstate
    exact .inl (by simp [storesStateIdle, hstate])
  case h_4 => split at hy <;> cases hy; exact .inr hx
  all_goals first | cases hy; done | (cases hy; exact .inr hx)

/-! ## What the stages say -/

/-- What a stage says of the memory and of the worker's events. -/
structure Given (w : Tid) (s : Hal) (x : Release) : Prop where
  sensor : x.sensorOff = true → s.mem.sensor.init = false
  app : x.appOff = true → s.mem.tz.init = false
  lowered : (s.own w).countP lowers = x.lowered
  shutDown : (s.own w).countP shutsDown = x.shutDown
  early : (s.own w).any abandons = x.early

section steps

variable {w t : Tid} {s s' : Hal} {x y : Release} {e : HalEvent}

/-- An operation of the worker, by what it makes of each part. -/
theorem Given.op {o : Op} {r : Resp o} (h : Given w s x) (hr : s.Runs fine w (.op o r) s')
    (hsensor : y.sensorOff = true → sensorInitAfter s.mem.sensor.init o = false)
    (happ : y.appOff = true → initAfter s.mem.tz.init o = false)
    (hlowered : y.lowered = x.lowered + if lowers (.op o r) then 1 else 0)
    (hshut : y.shutDown = x.shutDown + if shutsDown (.op o r) then 1 else 0)
    (hearly : y.early = (abandons (.op o r) || x.early)) : Given w s' y := by
  have heff := effect_of_runs hr
  have hown : s'.own w = .op o r :: s.own w := by rw [hr.own, if_pos rfl]
  refine ⟨fun hy => heff.sensorInit.trans (hsensor hy), fun hy => heff.init.trans (happ hy),
    ?_, ?_, ?_⟩
  · rw [hown, List.countP_cons, h.lowered, hlowered]
  · rw [hown, List.countP_cons, h.shutDown, hshut]
  · rw [hown, List.any_cons, h.early, hearly]

/-- **One step** of the worker. -/
theorem Given.worker (h : Given w s x) (hr : s.Runs fine w e s') (hy : x.next e = some y) :
    Given w s' y := by
  cases e with
  | op o r =>
    cases o with
    | qseecomSendCmd req =>
      cases hy
      exact h.op hr h.sensor h.app rfl rfl (Bool.or_comm _ _)
    | load v =>
      cases v with
      | sensorInit =>
        cases hy
        refine h.op hr (fun hoff => ?_) h.app rfl rfl rfl
        obtain hoff | hread := Bool.or_eq_true_iff.mp hoff
        · exact h.sensor hoff
        · exact (load_of_runs hr).symm.trans (by simpa using hread)
      | _ =>
        cases hy
        exact h.op hr h.sensor h.app rfl rfl rfl
    | store v a =>
      cases v with
      | sensorInit =>
        cases hy
        exact h.op hr (fun hoff => by simpa [sensorInitAfter] using hoff) h.app rfl rfl rfl
      | tzInit =>
        cases hy
        exact h.op hr h.sensor (fun hoff => by simpa [initAfter] using hoff) rfl rfl rfl
      | tzState =>
        simp only [Release.next] at hy
        split at hy <;> cases hy
        exact h.op hr h.sensor h.app rfl rfl rfl
      | _ =>
        cases hy
        exact h.op hr h.sensor h.app rfl rfl rfl
    | qseecomSetBandwidth high =>
      simp only [Release.next] at hy
      split at hy <;> cases hy
      rename_i hhigh
      exact h.op hr h.sensor h.app (by simp [lowers, hhigh]) rfl rfl
    | _ =>
      first
        | cases hy; done
        | (cases hy; exact h.op hr h.sensor h.app rfl rfl rfl)
  | enter c =>
    cases hy
    have hown : s'.own w = .enter c :: s.own w := by rw [hr.own, if_pos rfl]
    refine ⟨?_, ?_, ?_, ?_, ?_⟩
    · rw [mem_of_enters hr]
      exact h.sensor
    · rw [mem_of_enters hr]
      exact h.app
    · rw [hown, List.countP_cons, h.lowered]
      rfl
    · rw [hown, List.countP_cons, h.shutDown]
      rfl
    · rw [hown, List.any_cons, h.early]
      rfl
  | done c r => cases hy

/-- **One step** of another thread. -/
theorem Given.other (h : Given w s x) (htw : t ≠ w) (hr : s.Runs fine t e s')
    (he : e.within (asideOp true) (asideCall true) = true) : Given w s' x := by
  have haside := aside_of_runs hr he
  have hown : s'.own w = s.own w := by rw [hr.own, if_neg htw.symm]
  exact ⟨fun hx => haside.sensorInit.trans (h.sensor hx), fun hx => haside.init.trans (h.app hx),
    hown ▸ h.lowered, hown ▸ h.shutDown, hown ▸ h.early⟩

/-- The state is idle, or the worker is bound to make it so. -/
def StateReturns (w : Tid) (s : Hal) : Prop := WillIdle w s ∨ s.mem.tz.state = .stateIdle

/-- A store of `STATE_IDLE`. -/
theorem state_of_storesStateIdle (hr : s.Runs fine t e s') (he : storesStateIdle e = true) :
    s'.mem.tz.state = .stateIdle := by
  unfold storesStateIdle at he
  split at he
  · rw [(effect_of_runs hr).state]
    simpa [stateAfter] using he
  · cases he

/-- An arrival changes nothing about the worker. -/
theorem StateReturns.arrive {c : Call} (h : StateReturns w s) (htw : t ≠ w) :
    StateReturns w (s.add t c) := by
  refine h.imp_left fun hwill th hth => ?_
  rw [State.pool_add, if_neg htw.symm] at hth
  exact hwill th hth

/-- **One step** of the worker: the duty is met or kept. -/
theorem StateReturns.worker (h : StateReturns w s) (hr : s.Runs fine w e s')
    (hy : x.next e = some y) : StateReturns w s' := by
  by_cases he : storesStateIdle e = true
  · exact .inr (state_of_storesStateIdle hr he)
  obtain hwill | hidle := h
  · obtain ⟨th, -, -, hth, -⟩ := hr.moves
    obtain ⟨p, hn, hp⟩ := hr.code hth
    refine .inl fun th' hth' => ?_
    obtain rfl := Option.some.inj (hp.symm.trans hth')
    exact ((hwill th hth).next hn trivial).resolve_left he
  · refine .inr ?_
    cases e with
    | op o r =>
      rw [(effect_of_runs hr).state, ← hidle]
      unfold stateAfter
      split
      · simp only [Release.next] at hy
        split at hy
        · rename_i hstate
          exact absurd (by simp [storesStateIdle, hstate]) he
        · cases hy
      · cases hy
      · rfl
    | enter c => rw [mem_of_enters hr, hidle]
    | done c r => cases hy

/-- **One step** of another thread: it does not spoil the state when nobody mends it. -/
theorem StateReturns.other (h : StateReturns w s) (htw : t ≠ w) (hr : s.Runs fine t e s')
    (he : e.within (asideOp true) (asideCall true) = true) (hok : cancelsInTime w s t e)
    (hborn : hal.born e = none) : StateReturns w s' := by
  have hwill : WillIdle w s → WillIdle w s' := by
    intro hwill th hth
    rw [hr.pool_of_not_born hborn htw.symm] at hth
    exact hwill th hth
  by_cases hcancel : ∃ r, e = .op (.store .tzState .stateCancel) r
  · obtain hbusy | hw := hok htw hcancel
    · exact h.imp hwill fun hidle => absurd hidle hbusy
    · exact .inl (hwill hw)
  · exact h.imp hwill fun hidle =>
      (state_of_aside hr he fun r he => hcancel ⟨r, he⟩).trans hidle

end steps

/-! ## Every finished worker -/

/-- The two workers. -/
def worker : Call → Bool
  | .vcsAuthenticate | .vcsEnroll => true
  | _ => false

/-- The threads beside a worker. -/
def besides : Call → Bool
  | .fingerprintCancel | .vcsTimeout | .sensorProcessSignal => true
  | _ => false

/-- **Every worker releases what it was given.** In a run in which `STATE_CANCEL` is stored in
time, a finished worker has released everything just when it did not return early. -/
theorem released_iff {m : Mem} {c : Call} {w : Tid} {s : Hal} (hc : worker c = true)
    (h : ((Hal.idle m).add w c).Reaches fine besides (cancelsInTime w) s)
    (hfin : s.fin w = true) : Released w s ↔ (s.own w).any abandons = false := by
  have hstart : releaseProtocol.Follows fine (.call c .ret)
      (fun _ y => y = .all ∨ y.early = true ∧ y.idle = true ∧ y.shutDown = 0) .none := by
    cases c <;> first | cases hc; done | simp [releaseCalls, releaseLeaves]
  have hbesides : ∀ c, besides c = true → asideCall true c = true := by
    intro c hc
    cases c <;> first | rfl | cases hc
  have hwill : StateReturns w ((Hal.idle m).add w c) := by
    refine .inl fun th hth => ?_
    rw [State.pool_add, if_pos rfl] at hth
    obtain rfl := Option.some.inj hth
    refine release_will hstart (fun a y hy => ?_) rfl
    obtain rfl | ⟨-, hidle, -⟩ := hy
    · rfl
    · exact hidle
  obtain ⟨x, p, hp, hx, hgiven, hstate⟩ := State.Reaches.lone
    (fun s x => Given w s x ∧ StateReturns w s) releaseProtocol_valid hstart
    (fun _ => asideCall_within) hbesides (fun _ => aside_not_born) (fun _ _ _ => Release.not_born)
    (fun _ => rfl) ⟨⟨nofun, nofun, rfl, rfl, rfl⟩, hwill⟩
    (fun _ _ _ _ hI htw => ⟨⟨hI.1.sensor, hI.1.app, hI.1.lowered, hI.1.shutDown, hI.1.early⟩,
      hI.2.arrive htw⟩)
    (fun _ _ _ _ _ _ _ => trivial)
    (fun _ _ _ _ _ _ _ _ hI _ hr hy => ⟨hI.1.worker hr hy, hI.2.worker hr hy⟩)
    (fun _ _ _ _ _ _ _ _ hI htw hok hr he =>
      ⟨hI.1.other htw hr he, hI.2.other htw hr he hok (aside_not_born he)⟩) h
  cases p with
  | op o k => simp [State.fin, hp, Prog.finished] at hfin
  | call d k => simp [State.fin, hp, Prog.finished] at hfin
  | ret a =>
    have hidle : s.mem.tz.state = .stateIdle :=
      hstate.resolve_left fun hw => Will.not_ret (hw _ hp)
    constructor
    · intro hrel
      rw [hgiven.early]
      obtain rfl | ⟨-, -, hshut⟩ := hx
      · rfl
      · have hone := hrel.shutDown
        rw [hgiven.shutDown, hshut] at hone
        cases hone
    · intro hearly
      rw [hgiven.early] at hearly
      obtain rfl | ⟨hx, -, -⟩ := hx
      · exact ⟨hgiven.sensor rfl, hgiven.app rfl, hidle, hgiven.lowered, hgiven.shutDown⟩
      · simp [hx] at hearly

/-- A device that has been started for a session. -/
def startedDevice (state : WorkerState) : Mem :=
  { Mem.zero with
    tz := { TrustZone.zero with init := true, state, qhandle := true }
    sensor := ⟨true, false⟩ }

/-- `cancelsInTime` when the state is busy, executably. -/
def cancelsBusy (s : Hal) (_ : Tid) : HalEvent → Bool
  | .op (.store .tzState .stateCancel) _ => s.mem.tz.state != .stateIdle
  | _ => true

/-- `cancelsInTime` from its executable form. -/
theorem cancelsInTime_of_busy {w t : Tid} {s : Hal} {e : HalEvent} (h : cancelsBusy s t e = true) :
    cancelsInTime w s t e := by
  rintro - ⟨r, rfl⟩
  exact .inl (by simpa [cancelsBusy] using h)

/-- A worker that is cancelled while it waits for the finger releases everything. -/
theorem released_cancelled :
    ∃ s, ((Hal.idle (startedDevice .stateScan)).add 1 .vcsAuthenticate).Reaches fine besides
      (cancelsInTime 1) s ∧ s.fin 1 = true ∧ Released 1 s := by
  obtain ⟨s, hs, hfin, hearly⟩ : ∃ s,
      ((Hal.idle (startedDevice .stateScan)).add 1 .vcsAuthenticate).exec fine besides cancelsBusy
        (ticks 1 2 ++ answer 1 (.good 0) ++ ticks 1 7 ++ answer 1 (.good 0) ++ ticks 1 2 ++
          answer 1 (.good 0) ++ ticks 1 21 ++ .arrive 2 .fingerprintCancel :: ticks 2 16 ++
          touch 2 1 ++ ticks 2 1 ++ ticks 1 12 ++ answer 1 (.good 0) ++ ticks 1 21 ++
          answer 1 (.good 0) ++ ticks 1 11) = some s ∧ s.fin 1 = true ∧
      (s.own 1).any abandons = false := ⟨_, rfl, rfl, rfl⟩
  have hr : ((Hal.idle (startedDevice .stateScan)).add 1 .vcsAuthenticate).Reaches fine besides
      (cancelsInTime 1) s := State.Reaches.refl.exec (fun _ _ _ => cancelsInTime_of_busy) hs
  exact ⟨s, hr, hfin, (released_iff rfl hr hfin).mpr hearly⟩

/-- TrustZone refuses `vfmEnrollBegin`: the worker ends with the sensor on and the app running. -/
theorem abandoned :
    ∃ s, ((Hal.idle (startedDevice .stateEnroll)).add 1 .vcsEnroll).Reaches fine besides
      (fun _ _ _ => True) s ∧ s.fin 1 = true ∧ ¬ Released 1 s := by
  obtain ⟨s, hs, hfin, hsensor⟩ : ∃ s,
      ((Hal.idle (startedDevice .stateEnroll)).add 1 .vcsEnroll).exec fine besides
        (fun _ _ _ => true) (ticks 1 3 ++ answer 1 .lost ++ ticks 1 8) = some s ∧
      s.fin 1 = true ∧ s.mem.sensor.init = true := ⟨_, rfl, rfl, rfl⟩
  refine ⟨s, State.Reaches.refl.exec (fun _ _ _ _ => trivial) hs, hfin, fun h => ?_⟩
  simp [h.sensor] at hsensor

end KlteCommon.Analysis
