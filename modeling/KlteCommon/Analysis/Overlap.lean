import KlteCommon.Analysis.Ownership

/-!
# Idle too early

A session is to be over when `tz.state` is `STATE_IDLE`: this is all that a starter tests. But
every worker stores `STATE_IDLE` before it has brought down what it was started with, or before it
has reported how it ended.

`Phase` is how far a thread is with a session, at the grain at which `sensor_init`,
`sensor_uninit`, `vcs_init` and `vcs_uninit` are one step each. The ladder: what one step makes of
`tz.state` (`state_of_done`), that the bodies keep to the phases (`workerPhase_valid`,
`callerPhase_valid`), and that a worker in the phase after its first `STATE_IDLE` can still touch
the sensor, the app, the state or the device (`can_touch`). So `STATE_IDLE` excludes such a worker
up to the first time that one stores it, and not a step longer (`exclusive_iff`); a session that
is started then is torn down by the worker of the one before (`torn_down`).
-/

set_option autoImplicit false

namespace KlteCommon.Analysis

open KlteCommon.Computation KlteCommon.Fingerprint

/-! ## What is observed -/

/-- A step that touches the sensor, the app or its handle, `tz.state` or the device. -/
def touchesSession : HalEvent → Bool
  | .op .derefHandle _ => true
  | .done _ _ | .op (.ioctl _) _ | .op (.qseecomSendCmd _) _ | .op (.notify _) _ => true
  | _ => false

/-- A step that stores `STATE_IDLE`. -/
def publishes : HalEvent → Bool
  | .done (.setTzState .stateIdle) _ | .done .vcsUninit _ => true
  | _ => false

/-- Thread `t` is a worker that has such a step to run. -/
def StillTouches (s : Hal) (t : Tid) : Prop :=
  ∃ th, s.pool t = some th ∧ serves th.entry = true ∧
    Can hal sessionGrain (touchesSession · = true) th.code

/-- `STATE_IDLE` says that no worker has. -/
def Exclusive (s : Hal) : Prop := s.mem.tz.state = .stateIdle → ∀ t, ¬ StillTouches s t

/-- The condition on a step: it does not store `STATE_IDLE`. -/
def unpublished (_ : Hal) (_ : Tid) (e : HalEvent) : Prop := publishes e = false

/-! ## What one step makes of the state -/

/-- `tz.state` after a call. -/
def stateDone (old : WorkerState) : Call → WorkerState
  | .setTzState state => state
  | .vcsUninit => .stateIdle
  | _ => old

/-- The calls of this grain, and what they call. -/
def upDown : Call → Bool
  | .vcsUpdateAuthToken | .vcsResume => true
  | c => sessionGrain c

/-- The protocol of `tz.state`. -/
def stateProtocol : Protocol Resp Ret WorkerState where
  assume _ _ := True
  next x
    | .op o _ => some (stateAfter x o)
    | .enter _ => some x
    | .done _ _ => none
  pre c _ := upDown c = true
  post c x _ y := y = stateDone x c

section

variable (x y : WorkerState) (c : Call) (r : Ret c) (o : Op) (a : Resp o) (e : HalEvent)

/-- Nothing is assumed. -/
@[simp] theorem stateProtocol_assume : stateProtocol.assume x e ↔ True := Iff.rfl

/-- The state behind an operation. -/
@[simp] theorem stateProtocol_next_op :
    stateProtocol.next x (.op o a) = some (stateAfter x o) := rfl

/-- The calls are those that bring something up or down. -/
@[simp] theorem stateProtocol_pre : stateProtocol.pre c x ↔ upDown c = true := Iff.rfl

/-- The state behind a call. -/
@[simp] theorem stateProtocol_post : stateProtocol.post c x r y ↔ y = stateDone x c := Iff.rfl

/-- A call leaves the state it is known to leave. -/
@[simp ↓] theorem callRule_state (Q : Ret c → WorkerState → Prop) :
    stateProtocol.callRule fine c Q x ↔ upDown c = true ∧ ∀ r, Q r (stateDone x c) := by
  rw [Protocol.callRule_entered rfl trivial rfl]
  simp

end

section bodies

attribute [local simp ↓] load store op call send ionSbuffer sameIonSbuffer

/-- The bodies leave the states they are known to leave. -/
theorem stateProtocol_valid : stateProtocol.Valid fine body := by
  intro c _ x hx
  cases c <;> first | cases hx; done | skip
  all_goals
    simp [body, getTzState, setTzState, vcsUpdateAuthToken, getAuthToken, vcsResume, deviceResume,
      vcsUninit, vcsInit, sensorUninit, sensorInit, stateAfter, stateDone, upDown, sessionGrain]

end bodies

/-- A call that is one step. -/
theorem state_of_done {fin : Tid → Bool} {t : Tid} {c : Call} {r : Ret c} {m m' : Mem}
    (hc : sessionGrain c = true) (h : hal.Acts fin t (.done c r) m m') :
    m'.tz.state = stateDone m.tz.state c := by
  obtain ⟨chs, es, hsolo⟩ := h
  have hup : upDown c = true := by cases c <;> first | rfl | cases hc
  have hop : ∀ (x : WorkerState) (m : Mem) (o : Op) (ch : Choice) (a : Resp o) (m' : Mem),
      m.tz.state = x → act fin t o ch m = some (a, m') → True →
      stateProtocol.assume x (.op o a) ∧
        ∀ y, stateProtocol.next x (.op o a) = some y → m'.tz.state = y := by
    rintro _ m o ch a m' rfl hact -
    refine ⟨trivial, fun y hy => ?_⟩
    rw [(act_effect hact).state]
    exact Option.some.inj hy
  obtain ⟨y, -, hy, hm'⟩ := (stateProtocol_valid c rfl m.tz.state hup).alone
    (J := fun (x : WorkerState) (m : Mem) => m.tz.state = x) (X := fun _ => True)
    (fun _ => rfl) stateProtocol_valid hop
    (fun x m c hm => ⟨trivial, fun y hy => by cases hy; exact hm⟩) rfl (fun _ _ => trivial) hsolo
  exact hm'.trans hy

/-! ## The phases -/

/-- How far a thread is with a session: a thread that starts or stops one has set a busy state or
not; a worker has not stored `STATE_IDLE` yet, has stored it and not touched anything since, or
has. -/
inductive Phase
  | unset
  | set
  | working
  | published
  | clearing
  deriving DecidableEq

namespace Phase

/-- A worker after a step that touches something. -/
def touch : Phase → Phase
  | .published => .clearing
  | x => x

/-- A worker after it has stored `STATE_IDLE`. -/
def publish : Phase → Phase
  | .working => .published
  | x => x.touch

section

variable (x : Phase)

/-- Who has touched something since is not one that has only published. -/
@[simp] theorem touch_ne : x.touch ≠ .published := by cases x <;> nofun

/-- Nor is who has published twice. -/
@[simp] theorem publish_publish_ne : x.publish.publish ≠ .published := by cases x <;> nofun

/-- Nor is who has touched something in between. -/
@[simp] theorem publish_touch_publish_ne : x.publish.touch.publish ≠ .published := by
  cases x <;> nofun

end

/-- The phase of a worker after an event. -/
def workerNext (x : Phase) : HalEvent → Option Phase
  | .op (.store .tzState _) _ | .op .clearTz _ | .op (.pthreadCreate _) _ => none
  | .op .derefHandle _ => some x.touch
  | .op (.ioctl _) _ | .op (.qseecomSendCmd _) _ | .op (.notify _) _ => some x.touch
  | .op _ _ | .enter _ => some x
  | .done (.setTzState .stateIdle) _ | .done .vcsUninit _ => some x.publish
  | .done (.setTzState _) _ => none
  | .done _ _ => some x.touch

/-- The phase of any other thread after an event: it creates a worker only when it has set a busy
state. -/
def callerNext (x : Phase) : HalEvent → Option Phase
  | .op (.store .tzState _) _ | .op .clearTz _ => none
  | .op (.pthreadCreate w) (.ok _) => if Worker.serves w = true ∧ x ≠ .set then none else some x
  | .op _ _ | .enter _ => some x
  | .done (.setTzState .stateIdle) _ | .done .vcsUninit _ => none
  | .done (.setTzState _) _ => some .set
  | .done _ _ => some x

end Phase

/-- The calls a worker makes that are not one step. -/
def workerCalls (x : Phase) : Call → Prop
  | .vcsAuthenticate | .vcsEnroll => x = .working
  | .vcsCheckState | .vcsUpdateCalData | .vcsStartCapture _ | .vcsStartCaptureWait => True
  | .vcsStartCaptureRead | .vcsAuthenticateLoop | .vcsEnrollLoop _ _ => True
  | .vcsGetEnrolledFingerNum | .sensorCaptureStart => True
  | .sendErrorNotice _ | .sendAcquiredNotice _ | .sendAuthenticatedNotice _ => True
  | .sendEnrollNotice _ _ | .dbWriteToDb false _ => x ≠ .published
  | _ => False

/-- What such a call makes of the phase. -/
def workerLeaves (x : Phase) : (c : Call) → Ret c → Phase → Prop
  | .vcsAuthenticate, _, y | .vcsEnroll, _, y => y ≠ .published
  | .vcsEnrollLoop _ _, r, y => r = .returned → y ≠ .published
  | .vcsGetEnrolledFingerNum, _, y => y = x
  | .dbWriteToDb _ _, _, y => y = x
  | .sendErrorNotice _, _, y | .sendAcquiredNotice _, _, y => y ≠ .published
  | .sendEnrollNotice _ _, _, y | .sendAuthenticatedNotice _, _, y => y ≠ .published
  | _, _, _ => True

/-- The protocol of a worker. -/
@[simps] def workerPhase : Protocol Resp Ret Phase where
  assume _ _ := True
  next x e := x.workerNext e
  pre c x := workerCalls x c
  post c x r y := workerLeaves x c r y

/-- The calls of the other threads that are not one step. -/
def callerCalls : Call → Bool
  | .fingerprintAuthenticate _ | .fingerprintEnroll _ _ | .vcsStartAuthenticate => true
  | .vcsStartEnroll _ | .vcsTimeout | .vcsTimeoutLoop => true
  | .fingerprintCancel | .fingerprintCancelLoop | .sensorProcessSignal => true
  | .sendErrorNotice _ => true
  | _ => false

/-- The protocol of the other threads. -/
@[simps] def callerPhase : Protocol Resp Ret Phase where
  assume _ _ := True
  next x e := x.callerNext e
  pre c _ := callerCalls c = true
  post _ _ _ _ := True

section

variable (x y : Phase) (c : Call) (r : Ret c) (e : HalEvent)

/-- A call of the worker: one event at this grain, or its contract. -/
@[simp ↓] theorem callRule_worker (Q : Ret c → Phase → Prop) :
    workerPhase.callRule sessionGrain c Q x ↔
      if sessionGrain c then ∀ r, ∃ y, x.workerNext (.done c r) = some y ∧ Q r y
      else workerCalls x c ∧ ∀ r y, workerLeaves x c r y → Q r y := by
  cases hc : sessionGrain c with
  | false =>
    rw [Protocol.callRule_entered hc trivial rfl]
    rfl
  | true =>
    simp only [Protocol.callRule, hc, if_true]
    refine forall_congr' fun r => ⟨fun h => h.next trivial, ?_⟩
    rintro ⟨y, hy, hQ⟩
    exact .intro hy hQ

/-- A call of the others: one event at this grain, or its contract. -/
@[simp ↓] theorem callRule_caller (Q : Ret c → Phase → Prop) :
    callerPhase.callRule sessionGrain c Q x ↔
      if sessionGrain c then ∀ r, ∃ y, x.callerNext (.done c r) = some y ∧ Q r y
      else callerCalls c = true ∧ ∀ r y, Q r y := by
  cases hc : sessionGrain c with
  | false =>
    rw [Protocol.callRule_entered hc trivial rfl]
    simp
  | true =>
    simp only [Protocol.callRule, hc, if_true]
    refine forall_congr' fun r => ⟨fun h => h.next trivial, ?_⟩
    rintro ⟨y, hy, hQ⟩
    exact .intro hy hQ

end

section bodies

attribute [local simp ↓] load store op call send ionSbuffer sameIonSbuffer

attribute [local simp] workerCalls workerLeaves callerCalls Phase.workerNext Phase.callerNext
  sessionGrain Worker.serves

variable {α : Type} {p : Code α} {Q : α → Phase → Prop} {x : Phase} {Qi : ℤ → Phase → Prop}

/-- Code that only reads the slots keeps the phase. -/
theorem worker_of_readsSlot (hp : p.Within Op.readsSlot fun _ => False) (hQ : ∀ a, Q a x) :
    workerPhase.Follows sessionGrain p Q x := by
  refine .frame hp (fun o ho r => ?_) hQ
  cases o with
  | load => rfl
  | _ => cases ho

/-- Building the match request keeps the phase. -/
@[simp ↓] theorem worker_matchTemplates {Q : List (ℕ × List UInt8) → Phase → Prop} (n : ℕ)
    (idx : ℤ) (len : ℕ) (hQ : ∀ a, Q a x) :
    workerPhase.Follows sessionGrain (matchTemplates n idx len) Q x :=
  worker_of_readsSlot (matchTemplates_within ..) hQ

/-- So does the search for the matched finger. -/
@[simp ↓] theorem worker_findMatched (fakeFid : CInt) (fingerindex : ℤ) (n : ℕ) (idx : ℤ)
    (len : CInt) (hQ : ∀ a, Qi a x) :
    workerPhase.Follows sessionGrain (findMatched fakeFid fingerindex n idx len) Qi x :=
  worker_of_readsSlot (findMatched_within ..) hQ

/-- So does the search for a free slot. -/
@[simp ↓] theorem worker_firstFreeSlot (n : ℕ) (idx : ℤ) (hQ : ∀ a, Qi a x) :
    workerPhase.Follows sessionGrain (firstFreeSlot n idx) Qi x :=
  worker_of_readsSlot (firstFreeSlot_within ..) hQ

/-- Also for the others. -/
@[simp ↓] theorem caller_firstFreeSlot (n : ℕ) (idx : ℤ) (hQ : ∀ a, Qi a x) :
    callerPhase.Follows sessionGrain (firstFreeSlot n idx) Qi x := by
  refine .frame (firstFreeSlot_within ..) (fun o ho r => ?_) hQ
  cases o with
  | load => rfl
  | _ => cases ho

/-- The worker's bodies keep to the contracts. -/
theorem workerPhase_valid : workerPhase.Valid sessionGrain body := by
  intro c hc x hx
  cases c
  all_goals simp at hx
  case vcsUpdateCalData => simp [body, vcsUpdateCalData]
  case vcsCheckState => simp [body, vcsCheckState]
  case vcsStartCapture => simp [body, vcsStartCapture]
  case vcsStartCaptureWait => simp [body, vcsStartCaptureWait]
  case vcsStartCaptureRead => simp [body, vcsStartCaptureRead]
  case vcsAuthenticate => simp [body, vcsAuthenticate]
  case vcsAuthenticateLoop => simp [body, vcsAuthenticateLoop]
  case vcsEnroll => simp [body, vcsEnroll, vcsEnrollCommit, payloadBind, enrollmentPasswordSet]
  case vcsEnrollLoop => simp [body, vcsEnrollLoop]
  case vcsGetEnrolledFingerNum => exact worker_of_readsSlot (countFingers_within ..) fun num => rfl
  case sensorCaptureStart => simp [body, sensorCaptureStart]
  case dbWriteToDb remove _ =>
    cases remove
    · simp [body, dbWriteToDb]
    · simp at hx
  case sendErrorNotice => simp [body, sendErrorNotice]
  case sendAcquiredNotice => simp [body, sendAcquiredNotice]
  case sendEnrollNotice => simp [body, sendEnrollNotice, hx]
  case sendAuthenticatedNotice => simp [body, sendAuthenticatedNotice]

/-- So do the others' bodies. -/
theorem callerPhase_valid : callerPhase.Valid sessionGrain body := by
  intro c hc x hx
  cases c
  all_goals simp at hx
  case vcsTimeout => simp [body, vcsTimeout]
  case vcsTimeoutLoop => simp [body, vcsTimeoutLoop]
  case vcsStartAuthenticate =>
    simp [body, vcsStartAuthenticate, awaitIdle]
    rintro _ _ _ _ (_ | _) <;> simp
  case vcsStartEnroll =>
    simp [body, vcsStartEnroll]
    rintro (_ | _)
    · simp
    · simp
      rintro _ (_ | _) <;> simp
  case sensorProcessSignal => simp [body, sensorProcessSignal]
  case sendErrorNotice => simp [body, sendErrorNotice]
  case fingerprintAuthenticate => simp [body, fingerprintAuthenticate]
  case fingerprintEnroll hat _ => cases hat <;> simp [body, fingerprintEnroll]
  case fingerprintCancel =>
    simp [body, fingerprintCancel]
    rintro _ _ (_ | _) <;> simp
  case fingerprintCancelLoop => simp [body, fingerprintCancelLoop]

end bodies

/-! ## Nothing but a touch ends the phase after `STATE_IDLE` -/

/-- A worker that has published touches something, or has only published still. -/
theorem touches_of_next {e : HalEvent} {y : Phase} (h : Phase.published.workerNext e = some y) :
    touchesSession e = true ∨ y = .published := by
  unfold Phase.workerNext at h
  split at h <;> first | cases h; done | exact .inl rfl | skip
  all_goals exact .inr (Option.some.inj h).symm

/-- The count of the occupied slots ends. -/
theorem countFingers_ends (n : ℕ) (idx : ℤ) (num : CInt) :
    ∃ es r, Path hal sessionGrain (countFingers n idx num) es (.ret r) := by
  induction n generalizing idx with
  | zero => exact ⟨[], num, .nil _⟩
  | succ n ih =>
    obtain ⟨es, r, hpath⟩ := ih (idx + 1)
    refine ⟨.op (.load (.fingerExist idx)) false :: es, r, .cons ?_ hpath⟩
    exact Machine.Next.op (M := hal) (.load (.fingerExist idx))
      (fun exist => if exist then countFingers n (idx + 1) (num + 1)
        else countFingers n (idx + 1) num) false

/-- Whatever a worker calls then touches something, or comes back. -/
theorem touches_or_returns {c : Call} {x : Phase} (hx : x = .published) (hc : workerCalls x c) :
    Can hal sessionGrain (touchesSession · = true) (.call c .ret) ∨
      ∃ es r y, Path hal sessionGrain (.call c .ret) es (.ret r) ∧ workerLeaves x c r y ∧
        y = .published := by
  have hget : ∀ {α : Type} {k : WorkerState → Code α},
      Can hal sessionGrain (touchesSession · = true) (.call .getTzState k) :=
    .done rfl WorkerState.stateIdle rfl
  have hcheck : ∀ {α : Type} {k : CInt → Code α},
      Can hal sessionGrain (touchesSession · = true) (.call .vcsCheckState k) :=
    .enter rfl (.op true (.inl rfl))
  have hnotify : ∀ {α : Type} {m : FingerprintMsg} {k : Unit → Code α},
      Can hal sessionGrain (touchesSession · = true) (.op (.notify m) k) := .op () (.inl rfl)
  cases c
  case vcsCheckState => exact .inl hcheck
  case vcsUpdateCalData => exact .inl (.enter rfl (.op true (.inl rfl)))
  case vcsStartCapture => exact .inl (.enter rfl (.op true (.inl rfl)))
  case vcsStartCaptureWait => exact .inl (.enter rfl hcheck)
  case vcsStartCaptureRead => exact .inl (.enter rfl hcheck)
  case vcsAuthenticateLoop => exact .inl (.enter rfl hget)
  case vcsEnrollLoop => exact .inl (.enter rfl hget)
  case sensorCaptureStart => exact .inl (.enter rfl (.op (0 : CInt) (.inl rfl)))
  case sendErrorNotice => exact .inl (.enter rfl (.op () (.inr hnotify)))
  case sendAcquiredNotice => exact .inl (.enter rfl (.op () (.inr hnotify)))
  case sendAuthenticatedNotice =>
    exact .inl (.enter rfl (.enter rfl (.op () (.inr hnotify))))
  case vcsGetEnrolledFingerNum =>
    obtain ⟨es, num, hpath⟩ := countFingers_ends maxNumFingers 1 0
    exact .inr ⟨_, num, x, .cons (.enter _ _ rfl) (hpath.bind .ret), rfl, hx⟩
  case vcsAuthenticate => simp [workerCalls, hx] at hc
  case vcsEnroll => simp [workerCalls, hx] at hc
  case sendEnrollNotice => simp [workerCalls, hx] at hc
  case dbWriteToDb remove _ => cases remove <;> simp [workerCalls, hx] at hc
  all_goals simp [workerCalls] at hc

/-- **A worker that has just stored `STATE_IDLE` can still touch something.** -/
theorem can_touch {α : Type} {p : Code α} {Q : α → Phase → Prop}
    (hp : workerPhase.Follows sessionGrain p Q .published)
    (hQ : ∀ a y, Q a y → y ≠ .published) : Can hal sessionGrain (touchesSession · = true) p := by
  refine hp.can (D := (· = .published)) (fun _ _ => trivial) ?_ ?_ hQ rfl
  · rintro _ e y rfl hy
    exact touches_of_next hy
  · exact fun c x _ hx hc => touches_or_returns hx hc

/-! ## All interleavings -/

/-- The threads of the system and their phases. -/
def phaseRoles : Roles Resp Ret Phase where
  protocol c := if serves c then workerPhase else callerPhase
  away := .unset
  start c := if serves c then .working else .unset
  final c _ y := serves c = true → y ≠ .published

/-- Every thread starts in its first phase. -/
theorem phaseRoles_starts {c : Call} (hc : sessionCalls c = true ∨ ∃ w : Worker, c = w.call) :
    phaseRoles.Starts sessionGrain c := by
  simp only [Roles.Starts, phaseRoles]
  obtain hc | ⟨w, rfl⟩ := hc
  · cases c <;> first | cases hc; done | simp [serves, sessionGrain, callerCalls]
  · cases w <;>
      simp [serves, sessionGrain, callerCalls, workerCalls, workerLeaves, Worker.call]

/-- Every body keeps to the contracts of its thread. -/
theorem phaseRoles_valid (c : Call) : (phaseRoles.protocol c).Valid sessionGrain body := by
  simp only [phaseRoles]
  split
  · exact workerPhase_valid
  · exact callerPhase_valid

/-- What holds while nobody has stored `STATE_IDLE`: a worker is there, or a starter has passed the
busy test, only when the state is busy. -/
structure Busy (s : Hal) (φ : Tid → Phase) : Prop where
  set : ∀ t, φ t = .set → s.mem.tz.state ≠ .stateIdle
  working : ∀ t c, s.entry t = some c → serves c = true →
    φ t = .working ∧ s.mem.tz.state ≠ .stateIdle

/-- What an event that does not store `STATE_IDLE` makes of a phase. -/
theorem phase_next {c : Call} {x y : Phase} {e : HalEvent} (he : publishes e = false)
    (hy : (phaseRoles.protocol c).next x e = some y) :
    y = x ∨ y = x.touch ∨ y = .set ∧ ∃ state r, e = .done (.setTzState state) r := by
  simp only [phaseRoles] at hy
  split at hy
  · simp only [workerPhase_next] at hy
    unfold Phase.workerNext at hy
    split at hy <;> first | cases hy; done | cases he; done | skip
    all_goals obtain rfl := Option.some.inj hy
    all_goals first | exact .inl rfl | exact .inr (.inl rfl)
  · simp only [callerPhase_next] at hy
    unfold Phase.callerNext at hy
    split at hy <;> first | cases hy; done | cases he; done | skip
    · split at hy
      · cases hy
      · exact .inl (Option.some.inj hy).symm
    all_goals obtain rfl := Option.some.inj hy
    all_goals first | exact .inl rfl | exact .inr (.inr ⟨rfl, _, _, rfl⟩)

/-- What such an event makes of the state. -/
theorem state_of_next {s s' : Hal} {t : Tid} {e : HalEvent} {c : Call} {x y : Phase}
    (hr : s.Runs sessionGrain t e s') (he : publishes e = false)
    (hy : (phaseRoles.protocol c).next x e = some y) :
    s'.mem.tz.state = s.mem.tz.state ∧ (y = .set → x = .set) ∨ s'.mem.tz.state ≠ .stateIdle := by
  have htouch : x.touch = .set → x = .set := by cases x <;> simp [Phase.touch]
  have hset : (∀ state r, e ≠ .done (.setTzState state) r) → y = .set → x = .set := by
    rintro hne rfl
    obtain hx | hx | ⟨-, state, r, rfl⟩ := phase_next he hy
    · exact hx.symm
    · exact htouch hx.symm
    · exact absurd rfl (hne state r)
  cases e with
  | op o r =>
    have hkept : stateAfter s.mem.tz.state o = s.mem.tz.state := by
      unfold stateAfter
      split
      · cases hs : serves c <;> simp [phaseRoles, hs, Phase.workerNext, Phase.callerNext] at hy
      · cases hs : serves c <;> simp [phaseRoles, hs, Phase.workerNext, Phase.callerNext] at hy
      · rfl
    exact .inl ⟨(effect_of_runs hr).state.trans hkept, hset (by rintro _ _ ⟨⟩)⟩
  | enter d => exact .inl ⟨by rw [mem_of_enters hr], hset (by rintro _ _ ⟨⟩)⟩
  | done d r =>
    obtain ⟨th, p, m, -, hn, hacts, rfl⟩ := hr.moves
    have hd : sessionGrain d = true := by
      generalize th.code = code at hn
      cases hn
      assumption
    have hstate := state_of_done hd hacts
    unfold stateDone at hstate
    split at hstate
    · rename_i state
      refine .inr fun hidle => ?_
      obtain rfl : state = .stateIdle := hstate.symm.trans hidle
      cases he
    · cases he
    · rename_i hne _
      refine .inl ⟨hstate, hset fun state r heq => ?_⟩
      obtain ⟨rfl, -⟩ := Event.done.inj heq
      exact hne state rfl

/-- A thread that creates a worker has set a busy state. -/
theorem set_of_born {c d : Call} {x y : Phase} {e : HalEvent} {u : Tid}
    (hb : hal.born e = some (u, d)) (hd : serves d = true)
    (hy : (phaseRoles.protocol c).next x e = some y) : x = .set := by
  cases e with
  | op o r =>
    simp only [Machine.born] at hb
    unfold spawns at hb
    split at hb
    · rename_i w _
      obtain ⟨-, rfl⟩ : _ = u ∧ w.call = d := by simpa using hb
      have hw : Worker.serves w = true := by cases w <;> first | rfl | cases hd
      cases hs : serves c <;> simp [phaseRoles, hs, Phase.workerNext, Phase.callerNext, hw] at hy
      exact hy.1
    · cases hb
  | _ => cases hb

/-- **One step.** While nobody stores `STATE_IDLE`, the state stays busy. -/
theorem Busy.run {s s' : Hal} {φ : Tid → Phase} {t : Tid} {th : Thread Resp Ret} {e : HalEvent}
    {y : Phase} (hI : Busy s φ) (he : publishes e = false) (hth : s.pool t = some th)
    (hr : s.Runs sessionGrain t e s')
    (hy : (phaseRoles.protocol th.entry).next (φ t) e = some y) :
    Busy s' (stagesAfter phaseRoles hal φ t e y) := by
  have hstate := state_of_next hr he hy
  have hkept : s.mem.tz.state ≠ .stateIdle → s'.mem.tz.state ≠ .stateIdle := fun hbusy =>
    hstate.elim (fun h => h.1 ▸ hbusy) id
  have hentry : s.entry t = some th.entry := by rw [State.entry, hth]; rfl
  constructor
  · intro u hu
    obtain ⟨c, -, hstart⟩ | ⟨-, hkeep⟩ := stagesAfter_cases phaseRoles hal φ t e y u
    · rw [hstart] at hu
      simp only [phaseRoles] at hu
      split at hu <;> cases hu
    rw [hkeep, Function.update_apply] at hu
    split at hu
    · subst hu
      exact hstate.elim (fun h => hkept (hI.set t (h.2 rfl))) id
    · exact hkept (hI.set u hu)
  · intro u c hu hc
    by_cases hut : u = t
    · subst hut
      have hold : s.entry u = some c := by
        obtain h | hb := (hr.entry u c).mp hu
        · exact h
        · exact absurd (hr.fresh u c hb) (by simp [hth])
      obtain rfl : th.entry = c := Option.some.inj (hentry.symm.trans hold)
      obtain ⟨hx, hbusy⟩ := hI.working u _ hold hc
      refine ⟨?_, hkept hbusy⟩
      obtain ⟨d, hb, -⟩ | ⟨-, hkeep⟩ := stagesAfter_cases phaseRoles hal φ u e y u
      · exact absurd (hr.fresh u d hb) (by simp [hth])
      rw [hkeep, Function.update_self]
      obtain rfl | rfl | ⟨-, state, r, rfl⟩ := phase_next he hy
      · exact hx
      · rw [hx]
        rfl
      · cases state <;> simp [phaseRoles, hc, Phase.workerNext, publishes] at hy he
    · obtain ⟨hu, -, hstage⟩ | ⟨hb, -, -, hstage⟩ := hr.others hut φ y hu
      · rw [hstage]
        exact (hI.working u c hu hc).imp_right hkept
      · have hset := set_of_born hb hc hy
        exact ⟨hstage.trans (if_pos hc), hkept (hI.set t hset)⟩

/-- While nobody stores `STATE_IDLE`, the state is busy as long as there is a worker. -/
theorem busy {s₀ s : Hal} (hpool : ∀ t, s₀.pool t = none)
    (h : s₀.Reaches sessionGrain sessionCalls unpublished s) :
    ∃ φ, Staged phaseRoles sessionGrain s.pool φ ∧ Busy s φ := by
  refine State.Reaches.staged (I := Busy) (fun _ => .unset) phaseRoles_valid
    (fun _ _ _ _ _ _ _ hb => phaseRoles_starts (.inr (born_worker hb)))
    (fun c hc => phaseRoles_starts (.inl hc))
    ⟨fun t th ht => by simp [hpool t] at ht, fun _ _ => rfl⟩
    ⟨nofun, fun t c ht => by simp [State.entry, hpool t] at ht⟩ ?_ ?_
    (fun s φ t th e s' y _ hI hok hth hr hy _ => hI.run hok hth hr hy) h
  · intro s φ t c hφ hI hc ht
    have hserves : serves c = false := by cases c <;> first | rfl | cases hc
    constructor
    · intro u hu
      rw [Function.update_apply] at hu
      split at hu
      · simp [phaseRoles, hserves] at hu
      · exact hI.set u hu
    · intro u d hu hd
      rw [State.entry_add] at hu
      split at hu
      · obtain rfl := Option.some.inj hu
        simp [hserves] at hd
      · rename_i hut
        rw [Function.update_of_ne hut]
        exact hI.working u d hu hd
  · intro s φ t th e s' _ _ _ _ _
    simp only [phaseRoles]
    split <;> trivial

/-- A thread that stores `STATE_IDLE` for the first time is a worker that can touch something
then. -/
theorem stillTouches_of_publishes {s₀ s s' : Hal} {t : Tid} {e : HalEvent}
    (hpool : ∀ t, s₀.pool t = none) (h : s₀.Reaches sessionGrain sessionCalls unpublished s)
    (hr : s.Runs sessionGrain t e s') (he : publishes e = true) : StillTouches s' t := by
  obtain ⟨φ, hφ, hI⟩ := busy hpool h
  obtain ⟨th, -, -, hth, -⟩ := hr.moves
  have hentry : s.entry t = some th.entry := by rw [State.entry, hth]; rfl
  obtain ⟨y, hy, hφ'⟩ := hφ.run phaseRoles_valid (fun y u c _ hb =>
    phaseRoles_starts (.inr (born_worker hb))) hth hr (by simp only [phaseRoles]; split <;> trivial)
  obtain ⟨p, -, hp⟩ := hr.code hth
  have hfollows := hφ'.follows t _ hp
  obtain ⟨c, r, rfl⟩ : ∃ c r, e = .done c r := by
    cases e with
    | done c r => exact ⟨c, r, rfl⟩
    | _ => cases he
  have hstage : stagesAfter phaseRoles hal φ t (.done c r) y t = y := Function.update_self ..
  rw [hstage] at hfollows
  have hserves : serves th.entry = true := by
    by_contra hs
    simp only [phaseRoles, if_neg hs, callerPhase_next] at hy
    unfold publishes at he
    split at he <;> simp_all [Phase.callerNext]
  obtain ⟨hx, -⟩ := hI.working t _ hentry hserves
  obtain rfl : y = .published := by
    simp only [phaseRoles, if_pos hserves, workerPhase_next, hx] at hy
    unfold publishes at he
    split at he <;> simp_all [Phase.workerNext, Phase.publish]
  simp only [phaseRoles, if_pos hserves] at hfollows
  exact ⟨_, hp, hserves, can_touch hfollows fun a y hy => hy hserves⟩

/-- What stores `STATE_IDLE` makes the state `STATE_IDLE`. -/
theorem idle_of_publishes {s s' : Hal} {t : Tid} {e : HalEvent}
    (hr : s.Runs sessionGrain t e s') (he : publishes e = true) :
    s'.mem.tz.state = .stateIdle := by
  obtain ⟨th, p, m, -, -, hacts, rfl⟩ := hr.moves
  unfold publishes at he
  split at he
  · exact state_of_done rfl hacts
  · exact state_of_done rfl hacts
  · cases he

/-- **`STATE_IDLE` excludes a worker that has something to touch up to the first time that one
stores it, and no longer.** -/
theorem exclusive_iff {s₀ s : Hal} (hpool : ∀ t, s₀.pool t = none)
    (h : s₀.Reaches sessionGrain sessionCalls unpublished s) :
    Exclusive s ∧ ∀ t e s', s.Runs sessionGrain t e s' → (Exclusive s' ↔ publishes e = false) := by
  have hexclusive : ∀ {s : Hal}, s₀.Reaches sessionGrain sessionCalls unpublished s →
      Exclusive s := by
    rintro s h hidle t ⟨th, hth, hserves, -⟩
    obtain ⟨φ, -, hI⟩ := busy hpool h
    exact (hI.working t th.entry (by rw [State.entry, hth]; rfl) hserves).2 hidle
  refine ⟨hexclusive h, fun t e s' hr => ⟨fun hs' => ?_, fun he => hexclusive (h.run he hr)⟩⟩
  by_contra he
  have he : publishes e = true := by simpa using he
  exact hs' (idle_of_publishes hr he) t (stillTouches_of_publishes hpool h hr he)

/-! ## Runs -/

/-- `fingerprint_authenticate(7)` of thread 1, up to its end; thread 2 is the worker. -/
def firstSession : List (Label hal) :=
  .arrive 1 (.fingerprintAuthenticate 7) :: ticks 1 4 ++ accesses 1 6 ++
    [.run 1 (List.replicate 7 .tick),
      .run 1 (List.replicate 6 .tick ++ [.reply (.good 0), .tick, .reply (.good 0), .tick, .tick,
        .reply (.good 0), .tick, .tick, .tick, .tick])] ++ touch 1 2 ++ ticks 1 1

/-- The worker waits for a finger, thread 3 cancels, and the worker stores `STATE_IDLE` and is about
to bring down the sensor. -/
def cancelled : List (Label hal) :=
  ticks 2 2 ++ answer 2 (.good 0) ++ ticks 2 1 ++ accesses 2 1 ++ ticks 2 2 ++ answer 2 (.good 0) ++
    ticks 2 2 ++ answer 2 (.good 0) ++ ticks 2 9 ++
    .arrive 3 .fingerprintCancel :: ticks 3 2 ++ accesses 3 3 ++
    ticks 2 2 ++ accesses 2 2 ++ answer 2 (.good 0) ++ accesses 2 1 ++ ticks 2 3 ++ accesses 2 1

/-- `fingerprint_authenticate(8)` of thread 4, which finds the sensor and the app up; thread 5 is its
worker. -/
def secondSession : List (Label hal) :=
  .arrive 4 (.fingerprintAuthenticate 8) :: ticks 4 4 ++ accesses 4 6 ++ ticks 4 2 ++ touch 4 5 ++
    ticks 4 1

/-- The first worker brings down the sensor and the app. -/
def tearDown : List (Label hal) :=
  [.run 2 (List.replicate 6 .tick),
    .run 2 ([.tick, .tick, .reply (.good 0)] ++ List.replicate 7 .tick)]

/-- The worker of a cancelled authentication stores `STATE_IDLE`; a later one starts, finds
the sensor and the app up, and creates its worker; the first worker brings both down. -/
theorem torn_down :
    ∃ s s', (Hal.idle .zero).Reaches sessionGrain sessionCalls (fun _ _ _ => True) s ∧
      ¬ Exclusive s ∧ s.pool 5 = none ∧
      s.Reaches sessionGrain sessionCalls (fun _ _ _ => True) s' ∧
      s'.pool 5 = some (.start .vcsAuthenticate) ∧
      (∃ r r' log, s'.log = (2, .done .vcsUninit r) :: (2, .done .sensorUninit r') :: log) ∧
      s'.mem.tz.init = false ∧ s'.mem.sensor.init = false ∧ s'.mem.tz.state = .stateIdle := by
  obtain ⟨s, s', hs, hs', hidle, ⟨p, hp⟩, hnone, hlast, hafter⟩ :
      ∃ s s', (Hal.idle .zero).exec sessionGrain sessionCalls (fun _ _ _ => true)
        (firstSession ++ cancelled) = some s ∧
      s.exec sessionGrain sessionCalls (fun _ _ _ => true) (secondSession ++ tearDown) = some s' ∧
      s.mem.tz.state = .stateIdle ∧
      (∃ k, s.pool 2 = some ⟨.vcsAuthenticate, .call .sensorUninit k⟩) ∧ s.pool 5 = none ∧
      s'.pool 5 = some (.start .vcsAuthenticate) ∧
      (∃ r r' log, s'.log = (2, .done .vcsUninit r) :: (2, .done .sensorUninit r') :: log) ∧
      s'.mem.tz.init = false ∧ s'.mem.sensor.init = false ∧ s'.mem.tz.state = .stateIdle :=
    ⟨_, _, rfl, rfl, rfl, ⟨_, rfl⟩, rfl, rfl, ⟨_, _, _, rfl⟩, rfl, rfl, rfl⟩
  refine ⟨s, s', State.Reaches.refl.exec (fun _ _ _ _ => trivial) hs, fun h => ?_, hnone,
    State.Reaches.refl.exec (fun _ _ _ _ => trivial) hs', hlast, hafter⟩
  exact h hidle 2 ⟨_, hp, rfl, .done rfl (0 : CInt) rfl⟩

/-- A worker that is at work: nobody has stored `STATE_IDLE` yet. -/
theorem exclusive_firstSession :
    ∃ s, (Hal.idle .zero).Reaches sessionGrain sessionCalls unpublished s ∧
      s.pool 2 = some (.start .vcsAuthenticate) ∧ Exclusive s ∧
      ∀ t e s', s.Runs sessionGrain t e s' → (Exclusive s' ↔ publishes e = false) := by
  obtain ⟨s, hs, hp⟩ : ∃ s, (Hal.idle .zero).exec sessionGrain sessionCalls
      (fun _ _ e => !publishes e) firstSession = some s ∧
      s.pool 2 = some (.start .vcsAuthenticate) := ⟨_, rfl, rfl⟩
  have hr : (Hal.idle .zero).Reaches sessionGrain sessionCalls unpublished s :=
    State.Reaches.refl.exec (fun _ _ _ h => by simpa [unpublished] using h) hs
  exact ⟨s, hr, hp, exclusive_iff (fun _ => rfl) hr⟩

end KlteCommon.Analysis
