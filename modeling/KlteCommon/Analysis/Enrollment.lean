import KlteCommon.Computation.Protocol
import KlteCommon.Fingerprint.Effects
import KlteCommon.Fingerprint.Loops

/-!
# The course of an enrollment

The stages of `enrollProtocol` say how far a run of `vcs_enroll` has got: the search for a free
slot, the images, with the test of `tz.state` at the head of their loop followed step by step,
and then the commit, one stage for each of its writes, with the replies it is made of.

`enrollProtocol_valid` says that the body keeps to it: nothing is committed before the images
are complete or the loop is left, each of the writes is of the bytes of its reply, and they come
in order. What becomes of the slots and the rows is read off the stages elsewhere.
-/

set_option autoImplicit false

namespace KlteCommon.Analysis

open KlteCommon.Computation KlteCommon.Fingerprint

/-! ## The stages -/

/-- What has become of the images: more are wanted, TrustZone has reported that they are complete,
or the loop was left because `tz.state` was not `STATE_ENROLL`. -/
inductive Images
  | wanted
  | complete
  | interrupted
  deriving DecidableEq

/-- How far `vcs_enroll` has got with slot `idx`. -/
inductive Enrolling
  | searching (idx : ℤ)
  | imaging (idx : ℤ) (taken : Images)
  | looping (idx : ℤ)
  | testing (idx : ℤ)
  | reading (idx : ℤ)
  | finishing (idx : ℤ) (finish : Reply)
  | storing (idx : ℤ) (finish : Reply)
  | binding (idx : ℤ) (finish bind : Reply)
  | filling (idx : ℤ) (finish bind : Reply)
  | marking (idx : ℤ) (finish bind : Reply)
  | writing (idx : ℤ) (finish bind : Reply) (gid : UInt32)
  | written (idx : ℤ) (finish bind : Reply) (gid : UInt32) (boundData boundPayload : Bool)

namespace Enrolling

/-- Whether the worker is at the head of the image loop. -/
@[reducible] def atHead : Enrolling → Bool
  | .looping _ | .testing _ | .reading _ => true
  | _ => false

/-- Whether the worker is past the search and not at the head of the image loop. -/
@[reducible] def settled : Enrolling → Bool
  | .searching _ | .looping _ | .testing _ | .reading _ => false
  | _ => true

/-- Whether the worker may end here. -/
@[reducible] def ended : Enrolling → Bool
  | .imaging _ _ | .writing _ _ _ _ | .written _ _ _ _ _ _ => true
  | _ => false

/-- The reply to a command. -/
def afterSend (x : Enrolling) (cmd : CmdId) (r : Reply) : Option Enrolling :=
  match cmd, x with
  | .vfmEnrollBegin, .searching idx => if maxNumFingers < idx then some (.imaging idx .wanted) else none
  | .vfmEnrollBegin, .imaging _ _ => some x
  | .vfmEnrollBegin, _ => none
  | .vfmEnrollAddImage, .imaging idx .wanted =>
    some (if r.failed = false ∧ r.data 2 = 0x1 then .imaging idx .complete else x)
  | .vfmEnrollAddImage, _ => none
  | .vfmEnrollFinish, .imaging idx .complete | .vfmEnrollFinish, .imaging idx .interrupted =>
    some (.finishing idx r)
  | .vfmEnrollFinish, _ => none
  | .vfmPayloadBind, .storing idx finish | .vfmPayloadBind, .binding idx finish _ =>
    some (.binding idx finish r)
  | .vfmPayloadBind, _ => none
  | _, x => some x

/-- A read of slot `j`'s `exist`. -/
def afterProbe (x : Enrolling) (j : ℤ) (r : Bool) : Option Enrolling :=
  match x with
  | .searching idx =>
    if j = idx then some (if r then .searching (idx + 1) else .imaging idx .wanted) else none
  | _ => none

/-- A write of slot `j`'s `data`. -/
def afterData (x : Enrolling) (j : ℤ) (d : Bytes fingerDataMaxLength) : Option Enrolling :=
  match x with
  | .finishing idx finish => if j = idx ∧ d = finish.bytes _ then some (.storing idx finish) else none
  | _ => none

/-- A write of slot `j`'s `payload`. -/
def afterPayload (x : Enrolling) (j : ℤ) (d : Bytes payloadMaxLength) : Option Enrolling :=
  match x with
  | .binding idx finish bind =>
    if j = idx ∧ d = bind.bytes _ then some (.filling idx finish bind) else none
  | _ => none

/-- A write of slot `j`'s `exist`. -/
def afterMark (x : Enrolling) (j : ℤ) (exist : Bool) : Option Enrolling :=
  match x with
  | .filling idx finish bind => if j = idx ∧ exist then some (.marking idx finish bind) else none
  | _ => none

/-- A read of `vdev->active_gid`. -/
def afterGid (x : Enrolling) (gid : UInt32) : Option Enrolling :=
  match x with
  | .marking idx finish bind => some (.writing idx finish bind gid)
  | _ => none

/-- The end of an insertion. -/
def afterInsert (x : Enrolling) (gid : UInt32) (j : ℤ) (boundData boundPayload : Bool) (r : CInt) :
    Option Enrolling :=
  match x with
  | .writing idx finish bind g =>
    if gid = g ∧ j = idx then
      some (if r = sqliteDone then .written idx finish bind g boundData boundPayload else x)
    else none
  | _ => none

/-- An operation past the search and away from the head of the image loop. -/
def afterOp (x : Enrolling) : (o : Op) → Resp o → Option Enrolling
  | .qseecomSendCmd req, r => x.afterSend req.cmd r
  | .load (.fingerExist j), r => x.afterProbe j r
  | .store (.fingerData j) d, _ => x.afterData j d
  | .store (.fingerPayload j) d, _ => x.afterPayload j d
  | .store (.fingerExist j) exist, _ => x.afterMark j exist
  | .load .activeGid, r => x.afterGid r
  | .sqlInsert gid j boundData boundPayload, r => x.afterInsert gid j boundData boundPayload r
  | .store (.finger _) _, _ | .copyData _ _, _ | .copyPayload _ _, _ | .clearTz, _ => none
  | .store .activeGid _, _ | .clearDevice, _ | .pthreadCreate _, _ => none
  | .sqlCreate _, _ | .sqlDelete _ _, _ => none
  | _, _ => some x

/-- The result of the test at the head of the image loop. -/
def tested (x : Enrolling) (state : WorkerState) : Enrolling :=
  match x with
  | .testing idx | .reading idx =>
    .imaging idx (if state = .stateEnroll then .wanted else .interrupted)
  | x => x

/-- The call of a procedure. -/
def afterEnter (x : Enrolling) (c : Call) : Option Enrolling :=
  match c, x with
  | .vcsEnroll, x => some x
  | .vcsEnrollLoop _ _, .imaging idx .wanted => some (.looping idx)
  | .vcsEnrollLoop _ _, _ => none
  | _, x => if x.settled then some x else none

/-- One event of the worker. -/
def next (x : Enrolling) (e : HalEvent) : Option Enrolling :=
  match x with
  | .looping idx =>
    match e with
    | .enter .getTzState => some (.testing idx)
    | _ => none
  | .testing idx =>
    match e with
    | .op (.lock .tzLock) _ => some (.reading idx)
    | _ => none
  | .reading idx =>
    match e with
    | .op (.load .tzState) state => some ((Enrolling.reading idx).tested state)
    | _ => none
  | x =>
    match e with
    | .op o r => x.afterOp o r
    | .enter c => x.afterEnter c
    | .done _ _ => none

/-- An operation behind the head of the loop. -/
theorem next_op {x : Enrolling} (hx : x.atHead = false) (o : Op) (r : Resp o) :
    x.next (.op o r) = x.afterOp o r := by
  cases x <;> first | rfl | cases hx

/-- An entry behind the head of the loop. -/
theorem next_enter {x : Enrolling} (hx : x.atHead = false) (c : Call) :
    x.next (.enter c) = x.afterEnter c := by
  cases x <;> first | rfl | cases hx

/-- No call is atomic. -/
theorem next_done (x : Enrolling) (c : Call) (r : Ret c) : x.next (.done c r) = none := by
  cases x <;> rfl

/-- The loop begins with a test of the state. -/
theorem next_looping {idx : ℤ} {e : HalEvent} {y : Enrolling}
    (h : (Enrolling.looping idx).next e = some y) : e = .enter .getTzState ∧ y = .testing idx := by
  dsimp only [next] at h
  split at h <;> cases h
  exact ⟨rfl, rfl⟩

/-- The test takes `tz.lock`. -/
theorem next_testing {idx : ℤ} {e : HalEvent} {y : Enrolling}
    (h : (Enrolling.testing idx).next e = some y) :
    e = .op (.lock .tzLock) () ∧ y = .reading idx := by
  dsimp only [next] at h
  split at h <;> cases h
  exact ⟨rfl, rfl⟩

/-- The test decides whether another image is wanted. -/
theorem next_reading {idx : ℤ} {e : HalEvent} {y : Enrolling}
    (h : (Enrolling.reading idx).next e = some y) : ∃ state, e = .op (.load .tzState) state ∧
      y = .imaging idx (if state = .stateEnroll then .wanted else .interrupted) := by
  dsimp only [next] at h
  split at h <;> cases h
  exact ⟨_, rfl, rfl⟩

/-- A call leads to the head of the image loop or nowhere. -/
theorem afterEnter_some {x y : Enrolling} {c : Call} (h : x.afterEnter c = some y) :
    y = x ∨ ∃ idx i count, c = .vcsEnrollLoop i count ∧ x = .imaging idx .wanted ∧
      y = .looping idx := by
  unfold afterEnter at h
  split at h
  · exact .inl (by simpa using h.symm)
  · exact .inr ⟨_, _, _, rfl, rfl, by simpa using h.symm⟩
  · cases h
  · split at h <;> cases h
    exact .inl rfl

/-- An operation leads to no loop head. -/
theorem atHead_afterOp {x y : Enrolling} {o : Op} {r : Resp o} (hx : x.atHead = false)
    (hy : x.afterOp o r = some y) : y.atHead = false := by
  unfold afterOp afterSend afterProbe afterData afterPayload afterMark afterGid afterInsert at hy
  split at hy
  all_goals try split at hy
  all_goals try split at hy
  all_goals first
    | cases hy; done
    | obtain rfl := by simpa using hy
      first | exact hx | (split <;> exact hx)

/-- A worker that has ended is settled. -/
theorem settled_of_ended {x : Enrolling} (hx : x.ended = true) : x.settled = true := by
  cases x <;> first | rfl | cases hx

/-- A settled worker is behind the head of the loop. -/
theorem atHead_of_settled {x : Enrolling} (hx : x.settled = true) : x.atHead = false := by
  cases x <;> first | rfl | cases hx

end Enrolling

/-! ## The protocol -/

/-- Which procedures the worker calls at which stages, once it has entered them. -/
def enrollCalls (x : Enrolling) : Call → Prop
  | .vcsEnroll => x = .searching 1
  | .vcsEnrollLoop _ _ => ∃ idx, x = .looping idx
  | .getTzState => x.settled = true ∨ ∃ idx, x = .testing idx
  | .dbWriteToDb remove idx => remove = false ∧ ∃ finish bind, x = .marking idx finish bind
  | .setTzState _ | .sensorUninit | .vcsUninit | .vcsUpdateAuthToken => x.settled = true
  | .vcsUpdateCalData | .vcsCheckState | .vcsStartCapture _ => x.settled = true
  | .vcsStartCaptureWait | .vcsStartCaptureRead | .sensorCaptureStart => x.settled = true
  | .sendErrorNotice _ | .sendAcquiredNotice _ | .sendEnrollNotice _ _ => x.settled = true
  | _ => False

/-- The stages a procedure may be left in. -/
def enrollLeaves (x : Enrolling) : (c : Call) → Ret c → Enrolling → Prop
  | .vcsEnroll, _, y => y.ended = true
  | .vcsEnrollLoop _ _, r, y => ∃ idx taken, x = .looping idx ∧ y = .imaging idx taken ∧
      (r = .fellThrough → taken ≠ .wanted)
  | .getTzState, r, y => y = x.tested r
  | .dbWriteToDb _ idx, _, y => ∃ finish bind gid, x = .marking idx finish bind ∧
      (y = .writing idx finish bind gid ∨
        ∃ boundData boundPayload, y = .written idx finish bind gid boundData boundPayload)
  | _, _, y => y = x

/-- The protocol of the worker. -/
def enrollProtocol : Protocol Resp Ret Enrolling where
  assume _ _ := True
  next := Enrolling.next
  pre c x := enrollCalls x c
  post c x r y := enrollLeaves x c r y

/-- Whether a call is entered and left without a change of the stage. -/
@[reducible] def plain : Call → Bool
  | .vcsEnroll | .vcsEnrollLoop _ _ | .getTzState | .dbWriteToDb _ _ => false
  | _ => true

section

variable {x y : Enrolling} {c : Call} {r : Ret c} {o : Op} {a : Resp o} (idx i : ℤ)

/-- Nothing is assumed. -/
@[simp] theorem enrollProtocol_assume (e : HalEvent) : enrollProtocol.assume x e := trivial

/-- The stages in which a procedure is called. -/
@[simp] theorem enrollProtocol_pre : enrollProtocol.pre c x ↔ enrollCalls x c := Iff.rfl

/-- The stages in which it may return. -/
@[simp] theorem enrollProtocol_post : enrollProtocol.post c x r y ↔ enrollLeaves x c r y := Iff.rfl

/-- An operation behind the head of the loop. -/
@[simp] theorem enrollProtocol_next_op (hx : x.atHead = false) :
    enrollProtocol.next x (.op o a) = x.afterOp o a := Enrolling.next_op hx o a

/-- The test of the state takes `tz.lock`. -/
@[simp] theorem enrollProtocol_next_lock (a : Resp (.lock .tzLock)) :
    enrollProtocol.next (.testing idx) (.op (.lock .tzLock) a) = some (.reading idx) := rfl

/-- The state it reads decides whether another image is wanted. -/
@[simp] theorem enrollProtocol_next_load (state : Resp (.load .tzState)) :
    enrollProtocol.next (.reading idx) (.op (.load .tzState) state) =
      some (.imaging idx (if state = .stateEnroll then .wanted else .interrupted)) := rfl

/-- A call by its contract, in the stage its entry leads to. -/
theorem callRule_of_next {z : Enrolling} (hz : enrollProtocol.next x (.enter c) = some z)
    (Q : Ret c → Enrolling → Prop) :
    enrollProtocol.callRule fine c Q x ↔
      enrollCalls z c ∧ ∀ r y, enrollLeaves z c r y → Q r y := by
  simp [Protocol.callRule, fine, Protocol.Takes, hz]

/-- A plain procedure keeps a settled stage. -/
@[simp ↓] theorem callRule_plain {Q : Ret c → Enrolling → Prop} (hx : x.settled = true)
    (hc : plain c = true) :
    enrollProtocol.callRule fine c Q x ↔ enrollCalls x c ∧ ∀ r, Q r x := by
  have hnext : enrollProtocol.next x (.enter c) = some x := by
    cases x <;> first | cases hx; done | cases c <;> first | cases hc; done | rfl
  have hleaves : ∀ r y, enrollLeaves x c r y ↔ y = x := by
    intro r y
    cases c <;> first | cases hc; done | rfl
  simp [callRule_of_next hnext, hleaves]

/-- So does reading the state. -/
@[simp ↓] theorem callRule_getTzState {Q : WorkerState → Enrolling → Prop}
    (hx : x.settled = true) :
    enrollProtocol.callRule fine .getTzState Q x ↔ ∀ r, Q r x := by
  have hnext : enrollProtocol.next x (.enter .getTzState) = some x := by
    cases x <;> first | cases hx; done | rfl
  have hleaves : ∀ r y, enrollLeaves x .getTzState r y ↔ y = x := by
    intro r y
    cases x <;> first | cases hx; done | rfl
  simp [callRule_of_next hnext, hleaves, enrollCalls, hx]

/-- At the head of the loop reading the state is the test. -/
@[simp ↓] theorem callRule_test {Q : WorkerState → Enrolling → Prop} :
    enrollProtocol.callRule fine .getTzState Q (.looping idx) ↔
      ∀ r, Q r (.imaging idx (if r = .stateEnroll then .wanted else .interrupted)) := by
  rw [callRule_of_next (z := .testing idx) rfl]
  simp [enrollCalls, enrollLeaves, Enrolling.tested]

/-- The image loop ends with an image that is not wanted, if it falls through. -/
@[simp ↓] theorem callRule_loop {Q : EnrollExit → Enrolling → Prop} (count : CInt) :
    enrollProtocol.callRule fine (.vcsEnrollLoop i count) Q (.imaging idx .wanted) ↔
      ∀ r taken, (r = .fellThrough → taken ≠ .wanted) → Q r (.imaging idx taken) := by
  rw [callRule_of_next (z := .looping idx) rfl]
  refine ⟨fun h r taken ht => h.2 r _ ⟨idx, taken, rfl, rfl, ht⟩, fun h => ⟨⟨idx, rfl⟩, ?_⟩⟩
  rintro r _ ⟨_, taken, heq, rfl, ht⟩
  cases heq
  exact h r taken ht

/-- The call that writes the row may get to the insertion or not. -/
@[simp ↓] theorem callRule_write {Q : CInt → Enrolling → Prop} (finish bind : Reply) :
    enrollProtocol.callRule fine (.dbWriteToDb false idx) Q (.marking idx finish bind) ↔
      ∀ r gid, Q r (.writing idx finish bind gid) ∧
        ∀ boundData boundPayload, Q r (.written idx finish bind gid boundData boundPayload) := by
  rw [callRule_of_next (z := .marking idx finish bind) rfl]
  refine ⟨fun h r gid => ⟨?_, fun bd bp => ?_⟩, fun h => ⟨⟨rfl, _, _, rfl⟩, ?_⟩⟩
  · exact h.2 r _ ⟨_, _, gid, rfl, .inl rfl⟩
  · exact h.2 r _ ⟨_, _, gid, rfl, .inr ⟨bd, bp, rfl⟩⟩
  · rintro r _ ⟨_, _, gid, heq, rfl | ⟨bd, bp, rfl⟩⟩ <;> cases heq
    · exact (h r gid).1
    · exact (h r gid).2 bd bp

end

/-! ## The body keeps to it -/

section bodies

attribute [local simp ↓] load store op call send ionSbuffer sameIonSbuffer

attribute [local simp] enrollCalls enrollLeaves plain Enrolling.afterOp Enrolling.afterSend
  Enrolling.afterData Enrolling.afterPayload Enrolling.afterMark Enrolling.afterGid
  Enrolling.afterInsert Enrolling.tested

/-- The search for a free slot ends at a free slot, or behind the last one. -/
theorem follows_search {Q : ℤ → Enrolling → Prop} (n : ℕ) (idx : ℤ)
    (hn : idx + n = maxNumFingers + 1) (hfound : ∀ j, Q j (.imaging j .wanted))
    (hfull : ∀ j : ℤ, maxNumFingers < j → Q j (.searching j)) :
    enrollProtocol.Follows fine (firstFreeSlot n idx) Q (.searching idx) := by
  induction n generalizing idx with
  | zero => exact hfull idx (by simp at hn; omega)
  | succ n ih =>
    have hrest := ih (idx + 1) (by push_cast at hn; omega)
    simp [firstFreeSlot, Enrolling.afterProbe, Bool.forall_bool, hfound, hrest]

/-- A commit of images of which none is wanted any more ends the enrollment. -/
theorem follows_commit {Q : Unit → Enrolling → Prop} {idx : ℤ} {taken : Images}
    (ht : taken ≠ .wanted) (hQ : ∀ y : Enrolling, y.ended = true → Q () y) :
    enrollProtocol.Follows fine (vcsEnrollCommit idx) Q (.imaging idx taken) := by
  have hwriting : ∀ finish bind gid, Q () (.writing idx finish bind gid) :=
    fun _ _ _ => hQ _ rfl
  have hwritten : ∀ finish bind gid bd bp, Q () (.written idx finish bind gid bd bp) :=
    fun _ _ _ _ _ => hQ _ rfl
  cases taken with
  | wanted => exact absurd rfl ht
  | complete => simp [vcsEnrollCommit, payloadBind, enrollmentPasswordSet, hwriting, hwritten]
  | interrupted => simp [vcsEnrollCommit, payloadBind, enrollmentPasswordSet, hwriting, hwritten]

/-- No samples remain when TrustZone has said that the template is complete, and only then. -/
theorem samplesRemaining_eq_zero (count data2 : CInt) :
    samplesRemaining count data2 = 0 ↔ data2 = 1 := by
  unfold samplesRemaining
  split
  · simp_all
  · split <;> simp_all

/-- Every body keeps to the course of an enrollment. -/
theorem enrollProtocol_valid : enrollProtocol.Valid fine body := by
  intro c _ x hx
  cases c
  all_goals simp at hx
  case getTzState =>
    obtain hx | ⟨idx, rfl⟩ := hx
    · cases x <;> first | cases hx; done | simp [body, getTzState]
    · simp [body, getTzState]
  case vcsEnroll =>
    subst hx
    have hend : ∀ y : Enrolling, y.ended = true → enrollProtocol.Follows fine
        (do call (.setTzState .stateIdle); let _ ← call .sensorUninit; let _ ← call .vcsUninit)
        (enrollProtocol.post .vcsEnroll (.searching 1)) y := by
      intro y hy
      simp [Enrolling.settled_of_ended hy, hy]
    refine .bind (follows_ionSbuffer (fun _ => rfl) (fun _ => rfl) ?_)
    refine .bind (follows_search 5 1 (by decide) (fun idx => ?_) fun idx hidx => ?_)
    · simp
      intro _ _ _ _ r taken ht _ hr
      exact follows_commit (ht hr) hend
    · simp [hidx]
      intro _ _ _ _ r taken ht _ hr
      exact follows_commit (ht hr) hend
  case vcsEnrollLoop =>
    obtain ⟨idx, rfl⟩ := hx
    simp [body, vcsEnrollLoop]
    intro _ _ r
    by_cases hret : r.ret = 0
    · by_cases hresult : r.result = 0
      · by_cases hdata : r.data 2 = 1 <;>
          simp [Reply.failed, samplesRemaining_eq_zero, hret, hresult, hdata]
      · simp [Reply.failed, hret, hresult]
    · simp [Reply.failed, hret]
  case dbWriteToDb =>
    obtain ⟨rfl, finish, bind, rfl⟩ := hx
    simp [body, dbWriteToDb]
    intro gid data payload r
    by_cases hr : r = sqliteDone
    · by_cases hd : data = sqliteOk <;> by_cases hp : payload = sqliteOk <;> simp [hr, hd, hp]
    · simp [hr]
  all_goals have hx' := Enrolling.atHead_of_settled hx
  case setTzState => simp [body, setTzState, hx']
  case vcsUpdateCalData => simp [body, vcsUpdateCalData, hx']
  case vcsCheckState => simp [body, vcsCheckState, hx, hx']
  case vcsStartCapture => simp [body, vcsStartCapture, hx, hx']
  case vcsStartCaptureWait => simp [body, vcsStartCaptureWait, hx, hx']
  case vcsStartCaptureRead => simp [body, vcsStartCaptureRead, hx, hx']
  case vcsUpdateAuthToken => simp [body, vcsUpdateAuthToken, getAuthToken, hx']
  case vcsUninit => simp [body, vcsUninit, hx, hx']
  case sensorUninit => simp [body, sensorUninit, hx']
  case sensorCaptureStart => simp [body, sensorCaptureStart, hx']
  case sendErrorNotice => simp [body, sendErrorNotice, hx']
  case sendAcquiredNotice => simp [body, sendAcquiredNotice, hx']
  case sendEnrollNotice => simp [body, sendEnrollNotice, hx']

end bodies

/-! ## A worker among bystanders -/

/-- A step that commits: it marks a slot as existing or inserts a row. -/
def commits : HalEvent → Bool
  | .op (.store (.fingerExist _) exist) _ => exist
  | .op (.sqlInsert _ _ _ _) _ => true
  | _ => false

/-- A quiet step commits nothing. -/
theorem not_commits_of_quiet {e : HalEvent} (hq : quietEvent e = true) :
    commits e = false := by
  unfold commits
  split
  · cases hq
  · cases hq
  · rfl

/-- The procedures of the threads that take no part in an enrollment: cancellation, the timeout
and the signal handler, with what they call. -/
def bystander : Call → Bool
  | .fingerprintCancel | .fingerprintCancelLoop | .vcsTimeout | .vcsTimeoutLoop => true
  | .sensorProcessSignal | .getTzState | .setTzState _ | .sendErrorNotice _ => true
  | _ => false

/-- What a bystander does leaves the enrollment alone. -/
theorem bystander_within {c : Call} (hc : bystander c = true) :
    (body c).Within (Op.quiet · = true) (bystander · = true) := by
  cases c <;> first | cases hc; done | skip
  case fingerprintCancel =>
    simp [Prog.Within, body, fingerprintCancel, load, op, call, store, Op.quiet, bystander]
    rintro _ _ (_ | _) <;> simp
  all_goals
    simp [Prog.Within, body, fingerprintCancelLoop, vcsTimeout, vcsTimeoutLoop,
      sensorProcessSignal, getTzState, setTzState, sendErrorNotice, load, op, call, store, Op.quiet,
      bystander]

/-- The worker keeps to `enrollProtocol`, the others are bystanders. -/
def enrollRoles : Roles Resp Ret Enrolling where
  protocol
    | .vcsEnroll => enrollProtocol
    | _ => .only Op.quiet bystander
  away := .searching 1
  start _ := .searching 1
  final
    | .vcsEnroll, _, y => y.ended = true
    | _, _, _ => True

/-- Nobody creates a thread. -/
theorem enroll_not_born {d : Call} {x y : Enrolling} {e : HalEvent}
    (h : (enrollRoles.protocol d).next x e = some y) : hal.born e = none := by
  cases e with
  | enter c | done c r => rfl
  | op o r =>
    cases o with
    | pthreadCreate w =>
      unfold enrollRoles at h
      dsimp only at h
      split at h
      · cases x <;> cases h
      · cases h
    | _ => rfl

/-- The rule for the runs of one worker among bystanders: what holds of the start, survives
arrivals, is kept by the worker along its stages and by quiet steps of the others, holds in every
state reached, for the stage the worker is in. -/
theorem enroll_invariant {arrives : Call → Bool} {ok : Hal → Tid → HalEvent → Prop} {w : Tid}
    {m : Mem} {I : Hal → Enrolling → Prop} (harr : ∀ c, arrives c = true → bystander c = true)
    (h₀ : I ((Hal.idle m).add w .vcsEnroll) (.searching 1))
    (harrive : ∀ s t c x, I s x → t ≠ w → I (s.add t c) x)
    (hworker : ∀ s e s' x y, I s x → ok s w e → s.Runs fine w e s' → x.next e = some y → I s' y)
    (hother : ∀ s t e s' x, I s x → t ≠ w → s.Runs fine t e s' →
      quietEvent e = true → I s' x)
    {s : Hal} (h : ((Hal.idle m).add w .vcsEnroll).Reaches fine arrives ok s) :
    ∃ x p, s.pool w = some ⟨.vcsEnroll, p⟩ ∧
      enrollProtocol.Follows fine p (fun _ y => y.ended = true) x ∧ I s x := by
  have hne : ∀ c, arrives c = true → c ≠ .vcsEnroll := by
    rintro _ hc rfl
    cases harr _ hc
  have hworker_starts : enrollRoles.Starts fine .vcsEnroll := by
    have hnext : enrollProtocol.next (.searching 1) (.enter .vcsEnroll) = some (.searching 1) := rfl
    exact (callRule_of_next hnext _).mpr ⟨rfl, fun r y hy => hy⟩
  have hstarts : ∀ c, arrives c = true → enrollRoles.Starts fine c := by
    intro c hc
    have hb := harr c hc
    have hprot : enrollRoles.protocol c = .only Op.quiet bystander := by
      cases c <;> first | rfl | cases hb
    have hfinal : ∀ r y, enrollRoles.final c r y := by
      intro r y
      cases c <;> trivial
    unfold Roles.Starts
    rw [hprot]
    have hwithin : (Prog.call c .ret : Code (Ret c)).Within (Op.quiet · = true)
        (bystander · = true) := ⟨hb, fun _ => trivial⟩
    exact (Protocol.Follows.only hwithin).mono fun r y _ => hfinal r y
  obtain ⟨φ, hs, hentry, hI⟩ : ∃ φ, Staged enrollRoles fine s.pool φ ∧
      (∀ t, s.entry t = some .vcsEnroll ↔ t = w) ∧ I s (φ w) := by
    refine State.Reaches.staged (I := fun s φ => (∀ t, s.entry t = some .vcsEnroll ↔ t = w) ∧
      I s (φ w)) (fun _ => .searching 1) ?_ ?_ hstarts ?_ ⟨?_, h₀⟩ ?_ ?_ ?_ h
    · intro c
      unfold enrollRoles
      dsimp only
      split
      · exact enrollProtocol_valid
      · exact Protocol.only_valid fun c hc => bystander_within hc
    · intro d x e y u c hy hb
      rw [enroll_not_born hy] at hb
      cases hb
    · refine ⟨fun t th ht => ?_, fun t _ => rfl⟩
      rw [State.pool_add] at ht
      split at ht
      · cases ht
        exact hworker_starts
      · cases ht
    · intro t
      rw [State.entry_add]
      split <;> simp_all [Hal.idle, State.entry]
    · rintro s φ t c hs ⟨hentry, hI⟩ hc ht
      have htw : t ≠ w := by
        rintro rfl
        have := (hentry t).mpr rfl
        simp [State.entry, ht] at this
      refine ⟨fun u => ?_, ?_⟩
      · rw [State.entry_add]
        split
        · subst u
          simp [hne c hc, htw]
        · exact hentry u
      · rw [Function.update_of_ne htw.symm]
        exact harrive s t c _ hI htw
    · intro s φ t th e s' _ _ _ _ _
      unfold enrollRoles
      dsimp only
      split <;> trivial
    · rintro s φ t ⟨d, code⟩ e s' y hs ⟨hentry, hI⟩ hok hth hr hy -
      have hb := enroll_not_born hy
      have hd : s.entry t = some d := by rw [State.entry, hth]; rfl
      refine ⟨fun u => ?_, ?_⟩
      · rw [hr.entry u, hb, ← hentry u]
        simp
      · simp only [stagesAfter, hb]
        by_cases htw : t = w
        · subst htw
          obtain rfl : d = .vcsEnroll := by simpa [hd] using (hentry t).mpr rfl
          rw [Function.update_self]
          exact hworker s e s' _ y hI hok hr hy
        · have hdw : d ≠ .vcsEnroll := by
            rintro rfl
            exact htw ((hentry t).mp hd)
          have hprot : enrollRoles.protocol d = .only Op.quiet bystander := by
            cases d <;> first | rfl | exact absurd rfl hdw
          rw [Function.update_of_ne (Ne.symm htw)]
          rw [show (⟨d, code⟩ : Thread Resp Ret).entry = d from rfl, hprot] at hy
          have hquiet := (Protocol.only_next hy).2
          refine hother s t e s' _ hI htw hr ?_
          cases e with
          | op o r => exact hquiet o r rfl
          | _ => rfl
  have hw : s.entry w = some .vcsEnroll := (hentry w).mpr rfl
  obtain ⟨⟨d, p⟩, hp, rfl⟩ := Option.map_eq_some_iff.mp hw
  exact ⟨φ w, p, hp, hs.follows w _ hp, hI⟩

/-- A device that has been told to enroll, with an empty table for every group. -/
def enrollingDevice : Mem :=
  { Mem.started with
    tz := { Mem.started.tz with state := .stateEnroll }
    db := ⟨fun _ => some []⟩ }

end KlteCommon.Analysis
