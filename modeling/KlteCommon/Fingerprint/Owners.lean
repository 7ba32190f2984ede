import KlteCommon.Fingerprint.Loops

/-!
# Who may do what

Most shared variables are written by one or two procedures only, and most procedures are called
from one place. `performs` and `calls` list the operations and the calls that are special in this
way with the procedures they belong to; `body_within` says that the bodies keep to the lists.
-/

set_option autoImplicit false

namespace KlteCommon.Fingerprint

open KlteCommon.Computation

/-- The operations a procedure may perform: the special ones are those of one procedure. -/
@[reducible] def performs (c : Call) : Op → Bool
  | .load .opId | .notify (.authenticated _ _ _) =>
    match c with | .sendAuthenticatedNotice _ => true | _ => false
  | .store .opId _ => match c with | .fingerprintAuthenticate _ => true | _ => false
  | .store .secureUserId _ | .store .userId _ =>
    match c with | .fingerprintEnroll _ _ => true | _ => false
  | .store .authenticatorId _ | .readDbFile =>
    match c with | .fingerprintGetAuthId => true | _ => false
  | .store .challenge _ =>
    match c with | .fingerprintPreEnroll | .fingerprintPostEnroll => true | _ => false
  | .store .authToken _ => match c with | .vcsUpdateAuthToken => true | _ => false
  | .store .authSessionToken _ | .store .authSessionOpend _ =>
    match c with | .vcsStartAuthSession | .vcsStopAuthSession => true | _ => false
  | .clearTz | .clearDevice => match c with | .fingerprintOpen => true | _ => false
  | .pthreadCreate .vcsAuthenticate => match c with | .vcsStartAuthenticate => true | _ => false
  | .pthreadCreate _ => match c with | .vcsStartEnroll _ => true | _ => false
  | .pthreadJoin _ => match c with | .fingerprintCancel => true | _ => false
  | .store .tzState _ => match c with | .setTzState _ => true | _ => false
  | .lock .sensorLock | .unlock .sensorLock =>
    match c with | .vcsStartCapture _ | .sensorProcessSignal | .fingerprintCancel => true | _ => false
  | .condSignal .sensorCond =>
    match c with | .sensorProcessSignal | .fingerprintCancel => true | _ => false
  | .condWake _ _ => match c with | .vcsStartCaptureWait => true | _ => false
  | .condBlock .sensorCond _ => match c with | .vcsStartCaptureWait => true | _ => false
  | .condBlock .timeoutCond _ | .condTimedWake _ _ =>
    match c with | .vcsTimeout => true | _ => false
  | _ => true

/-- The calls a procedure may make: no entry point is called, and some procedures are called by one
other only. -/
@[reducible] def calls (c : Call) : Call → Bool
  | .vcsStartAuthenticate => match c with | .fingerprintAuthenticate _ => true | _ => false
  | .vcsStartEnroll _ => match c with | .fingerprintEnroll _ _ => true | _ => false
  | .sendAuthenticatedNotice _ => match c with | .vcsAuthenticate => true | _ => false
  | .setTzState .stateCancel => match c with | .fingerprintCancel | .vcsTimeout => true | _ => false
  | .vcsStartCaptureWait =>
    match c with | .vcsStartCapture _ | .vcsStartCaptureWait => true | _ => false
  | .fingerprintCancelLoop =>
    match c with | .fingerprintCancel | .fingerprintCancelLoop => true | _ => false
  | .vcsTimeoutLoop => match c with | .vcsTimeout | .vcsTimeoutLoop => true | _ => false
  | .vcsAuthenticate | .vcsEnroll | .vcsTimeout | .sensorProcessSignal => false
  | .fingerprintGetAuthId | .fingerprintSetActiveGroup _ | .fingerprintAuthenticate _ => false
  | .fingerprintEnroll _ _ | .fingerprintPreEnroll | .fingerprintPostEnroll => false
  | .fingerprintEnumerate | .fingerprintRemove _ => false
  | .setNotifyCallback _ | .fingerprintClose | .fingerprintOpen => false
  | _ => true

section bodies

attribute [local simp] load store op call send ionSbuffer sameIonSbuffer

/-- Every procedure may read the slots. -/
theorem performs_of_readsSlot (c : Call) (o : Op) (ho : o.readsSlot) : performs c o = true := by
  cases o with
  | load v => cases v <;> first | rfl | cases ho
  | _ => cases ho

/-- Every procedure may store. -/
theorem performs_of_storage (c : Call) (o : Op) (ho : o.storage) : performs c o = true := by
  cases o with
  | load v => cases v <;> first | rfl | cases ho
  | store v a => cases v <;> first | rfl | cases ho
  | _ => first | rfl | cases ho

/-- Every procedure may use the database. -/
theorem calls_of_dbCall (c d : Call) (hd : dbCall d) : calls c d = true := by
  cases d <;> first | rfl | cases hd

/-- Code behind the search for a free slot. -/
theorem within_firstFreeSlot {A : Op → Prop} {B : Call → Prop} {Q : ℤ → Unit → Prop} {n : ℕ} {idx : ℤ}
    (hA : ∀ o, o.readsSlot → A o) (hQ : ∀ j, Q j ()) :
    (firstFreeSlot n idx).wp (fun o Q x => A o ∧ ∀ r, Q r x) (fun c Q x => B c ∧ ∀ r, Q r x) Q () := by
  have hwithin : (firstFreeSlot n idx).Within A B :=
    (firstFreeSlot_within n idx).mono hA fun _ => False.elim
  exact Prog.wp_mono (fun _ _ _ _ h hA => ⟨hA.1, fun r => h r _ (hA.2 r)⟩)
    (fun _ _ _ _ h hB => ⟨hB.1, fun r => h r _ (hB.2 r)⟩) (fun j _ _ => hQ j) hwithin

/-- **The bodies keep to the lists.** -/
theorem body_within (c : Call) : (body c).Within (performs c · = true) (calls c · = true) := by
  have hreads : ∀ {α : Type} {p : Code α}, p.Within Op.readsSlot (fun _ => False) →
      p.Within (performs c · = true) (calls c · = true) :=
    fun hp => hp.mono (performs_of_readsSlot c) fun _ => False.elim
  by_cases hdb : dbCall c
  · exact (dbCall_within hdb).mono (performs_of_storage c) (calls_of_dbCall c)
  cases c <;> first | exact absurd trivial hdb | skip
  case vcsGetEnrolledFingerNum => exact hreads (countFingers_within ..)
  case vcsAuthenticateLoop =>
    refine .bind (by simp) fun _ => .ite (by simp) (.bind (by simp) fun _ => .ite (by simp) ?_)
    refine .bind (by simp [Prog.Within]) fun _ => .bind (by simp) fun _ => .bind (by simp) fun _ => ?_
    refine .bind (hreads (matchTemplates_within ..)) fun _ => .bind (by simp) fun _ => ?_
    refine .ite (by simp [Prog.Within]) (.ite (by simp [Prog.Within]) ?_)
    exact .bind (hreads (findMatched_within ..)) fun _ => by simp [Prog.Within]
  case vcsEnroll =>
    refine .bind (by simp [Prog.Within]) fun _ => .bind (hreads (firstFreeSlot_within ..)) fun _ => ?_
    simp [vcsEnrollCommit, payloadBind, enrollmentPasswordSet, Prog.Within]
  case fingerprintEnroll hat timeout =>
    cases hat with
    | none => simp [Prog.Within, body, fingerprintEnroll]
    | some h =>
      simp [Prog.Within, body, fingerprintEnroll,
        within_firstFreeSlot (performs_of_readsSlot (.fingerprintEnroll (some h) timeout))]
  case fingerprintRemove fid =>
    by_cases hfid : fid = 0
    · simp only [body, fingerprintRemove, hfid, if_true]
      have hall := removeFingers_within (A := (performs (.fingerprintRemove 0) · = true))
        (B := (calls (.fingerprintRemove 0) · = true)) (fun _ => rfl) rfl rfl (fun _ => rfl)
        (fun _ => rfl) maxNumFingers 1 0
      exact .bind hall fun _ => by simp [Prog.Within]
    · simp [Prog.Within, body, fingerprintRemove, hfid]
  all_goals
    simp [Prog.Within, body, getTzState, setTzState, vcsUpdateCalData, vcsCheckState,
      vcsStartCapture, vcsStartCaptureWait, vcsStartCaptureRead, vcsAuthenticate, vcsEnrollLoop,
      vcsTimeout, vcsTimeoutLoop, vcsStartEnroll, vcsUpdateAuthToken, getAuthToken,
      vcsStartAuthSession, vcsStopAuthSession, vcsResume, deviceResume, vcsUninit, vcsInit,
      sensorUninit, sensorInit, sensorProcessSignal, sensorRegister, sensorCaptureStart,
      dbUninit, sendErrorNotice, sendAcquiredNotice, sendEnrollNotice, sendRemoveNotice,
      sendAuthenticatedNotice, fingerprintGetAuthId, fingerprintSetActiveGroup,
      fingerprintAuthenticate, vcsStartAuthenticate, awaitIdle,
      fingerprintPreEnroll, fingerprintPostEnroll, fingerprintCancel, fingerprintCancelLoop,
      fingerprintEnumerate, setNotifyCallback, fingerprintClose, fingerprintOpen]
  case vcsStartEnroll =>
    rintro (_ | _)
    · simp
    · simp
      rintro _ (_ | _) <;> simp
  case vcsStartAuthenticate => rintro _ _ _ _ (_ | _) <;> simp
  case fingerprintCancel => rintro _ _ (_ | _) <;> simp

end bodies

end KlteCommon.Fingerprint
