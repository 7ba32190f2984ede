import KlteCommon.Computation.Paths
import KlteCommon.Fingerprint.Effects
import KlteCommon.Fingerprint.Loops

/-!
# The handle of the app

The handle is to be dereferenced and used only while the app runs, and the app is to be started only
while it does not. `tz.init` is the code's own record of that. The two may differ: a
`QSEECom_set_bandwidth` that fails after the start leaves the app running with `tz.init` unset, and
`fingerprint_open` and `fingerprint_close` go on when the start itself has failed, to a NULL handle
(`failed_start`).

Sessions run one at a time. `Handle` is what the thread whose turn it is knows; every procedure
keeps to it (`handleProtocol_valid`), given that a start succeeds where nobody looks and the
bandwidth is granted where somebody does. `Turns` is the invariant of the whole system, kept by a
step (`Turns.run`), and `handleKept` the conclusion for every run.
-/

set_option autoImplicit false

namespace KlteCommon.Analysis

open KlteCommon.Computation KlteCommon.Fingerprint

/-! ## What is observed -/

/-- The app runs: it was started, and not shut down since. -/
def running : List (Tid × HalEvent) → Bool
  | [] => false
  | (_, .op .qseecomStartApp r) :: log => r == 0 || running log
  | (_, .op .qseecomShutdownApp _) :: _ => false
  | _ :: log => running log

/-- The app's handle is dereferenced or handed to the library. -/
def usesHandle : HalEvent → Bool
  | .op .derefHandle _ => true
  | .op (.qseecomSendCmd _) _ | .op (.qseecomSetBandwidth _) _ => true
  | .op .qseecomShutdownApp _ => true
  | _ => false

/-- A call of `QSEECom_start_app`, whatever it returns. -/
def startsApp : HalEvent → Bool
  | .op .qseecomStartApp _ => true
  | _ => false

/-- The handle is used only while the app runs, and the app started only while it does not. -/
def HandleKept (s : Hal) : Prop :=
  ∀ later t e earlier, s.log = later ++ (t, e) :: earlier →
    (usesHandle e = true → running earlier = true) ∧ (startsApp e = true → running earlier = false)

/-- The functions that bring the app up and down without looking at the results. -/
def chained : Call → Bool
  | .fingerprintOpen | .fingerprintClose => true
  | _ => false

/-- The workers that use the handle they are started with. -/
def handedOver : Call → Bool
  | .vcsAuthenticate | .vcsEnroll => true
  | _ => false

/-- The calls and workers that are to run one at a time. -/
def inTurn : Call → Bool
  | .fingerprintAuthenticate _ | .fingerprintEnroll _ _ => true
  | c => chained c || handedOver c

/-- The procedures that use the handle, start it or create a worker. -/
def handleCall : Call → Bool
  | .vcsInit | .vcsUninit | .vcsResume | .vcsUpdateAuthToken => true
  | .vcsStartAuthSession | .vcsStopAuthSession => true
  | .vcsStartAuthenticate | .vcsStartEnroll _ => true
  | .vcsUpdateCalData | .vcsCheckState | .vcsStartCapture _ => true
  | .vcsStartCaptureWait | .vcsStartCaptureRead => true
  | .vcsAuthenticateLoop | .vcsEnrollLoop _ _ => true
  | c => inTurn c

/-- What may be called at any time: the functions that take turns, and all procedures that have
nothing to do with the handle. -/
def halCalls (c : Call) : Bool := inTurn c && !handedOver c || !handleCall c

/-- A thread that takes turns waits for the others to finish; a worker that was created is next. -/
def oneAtATime (s : Hal) (t : Tid) : Prop :=
  ∀ u c, u ≠ t → s.entry u = some c → inTurn c = true →
    s.fin u = true ∨ s.own u = [] ∧ (s.own t = [] → handedOver c = false)

/-- The condition on a step: a start of the app by `fingerprint_open` or `fingerprint_close`
succeeds, the bandwidth is granted to the others, and `fingerprint_open` clears `tz` while the app
is not up. -/
def startsCleanly (s : Hal) (t : Tid) : HalEvent → Prop
  | .op .qseecomStartApp r => ∀ c, s.entry t = some c → chained c = true → r = 0
  | .op (.qseecomSetBandwidth true) r => ∀ c, s.entry t = some c → chained c = false → r = 0
  | .op .clearTz _ => s.mem.tz.init = false
  | _ => True

/-- The runs: who takes turns takes them one at a time. -/
def takesTurns (s : Hal) (t : Tid) : Prop :=
  ∀ c, s.entry t = some c → inTurn c = true → oneAtATime s t

/-! ## One thread -/

/-- What a thread knows of `tz.init` and of the app: that they agree, what they are, or that they
agree and are none of its business. -/
inductive Handle
  | settled
  | known (init running : Bool)
  | off

/-- The knowledge is right. -/
def Handle.fits : Handle → Bool → Bool → Prop
  | .settled, i, r | .off, i, r => i = r
  | .known i' r', i, r => i = i' ∧ r = r'

/-- The two agree. -/
def Handle.rests : Handle → Prop
  | .settled | .off => True
  | .known i r => i = r

/-- Between the session commands the app runs if and only if `tz.init` is set. -/
theorem Handle.fits.agree {x : Handle} {i r : Bool} (h : x.fits i r) (hx : x.rests) : i = r := by
  cases x with
  | settled | off => exact h
  | known i' r' => exact h.1.trans (hx.trans h.2.symm)

/-- A settled stage rests. -/
@[simp] theorem Handle.rests_settled : Handle.settled.rests := trivial

/-- A thread that has nothing to do with the app rests. -/
@[simp] theorem Handle.rests_off : Handle.off.rests := trivial

/-- A known stage rests when the app and `tz.init` agree. -/
@[simp] theorem Handle.rests_known (i r : Bool) : (Handle.known i r).rests ↔ i = r := Iff.rfl

/-- What a thread knows after an event. -/
def Handle.next (x : Handle) : HalEvent → Option Handle
  | .op (.load .tzInit) r =>
    match x with
    | .settled => some (.known r r)
    | _ => some x
  | .op (.store .tzInit b) _ =>
    match x with
    | .known _ r => some (.known b r)
    | _ => none
  | .op .clearTz _ =>
    match x with
    | .settled => some (.known false false)
    | _ => none
  | .op .qseecomStartApp ret =>
    match x with
    | .known i false => some (.known i (ret == 0))
    | _ => none
  | .op .derefHandle _ | .op (.qseecomSetBandwidth _) _ | .op (.qseecomSendCmd _) _ =>
    match x with
    | .known _ true => some x
    | _ => none
  | .op .qseecomShutdownApp _ =>
    match x with
    | .known i true => some (.known i false)
    | _ => none
  | .op (.pthreadCreate .vcsTimeout) _ => some x
  | .op (.pthreadCreate _) (.ok _) =>
    match x with
    | .known true true => some .off
    | _ => none
  | .op _ _ | .enter _ => some x
  | .done _ _ => none

/-- What is relied on. -/
def Handle.assumes (chains : Bool) (x : Handle) : HalEvent → Prop
  | .op (.load .tzInit) r => ∀ i b, x = .known i b → r = i
  | .op .qseecomStartApp ret => chains = true → ret = 0
  | .op (.qseecomSetBandwidth true) ret => chains = false → ret = 0
  | _ => True

/-- The stages a procedure is entered in. -/
def handleCalls (chains : Bool) (x : Handle) : Call → Prop
  | .vcsInit => x.rests ∧ x ≠ .off
  | .vcsUninit | .vcsUpdateAuthToken | .vcsStartAuthSession | .vcsStopAuthSession =>
    ∃ i, x = .known i true
  | .vcsStartAuthenticate | .vcsStartEnroll _ => x.rests ∧ x ≠ .off ∧ chains = false
  | .fingerprintAuthenticate _ | .fingerprintEnroll _ _ => x.rests ∧ x ≠ .off ∧ chains = false
  | .fingerprintOpen | .fingerprintClose => x = .settled ∧ chains = true
  | c => handleCall c = true → x = .known true true

/-- The stages it is left in. -/
def handleLeaves (chains : Bool) (x : Handle) : (c : Call) → Ret c → Handle → Prop
  | .vcsInit, r, y =>
    if chains then ∃ i, y = .known i true
    else if r = 0 then y = .known true true else y.rests ∧ y ≠ .off
  | .vcsUninit, _, y => y = .known false false
  | .vcsStartAuthenticate, _, y | .vcsStartEnroll _, _, y => y.rests
  | c, _, y => if inTurn c then y.rests else y = x

/-- The protocol of a thread; `chains` says that nobody looks at the results. -/
@[simps] def handleProtocol (chains : Bool) : Protocol Resp Ret Handle where
  assume x e := x.assumes chains e
  next x e := x.next e
  pre c x := handleCalls chains x c
  post c x r y := handleLeaves chains x c r y

section

variable (chains : Bool) (x y : Handle) (c : Call) (r : Ret c) (e : HalEvent)

/-- A call by its contract. -/
@[simp ↓] theorem callRule_handle (Q : Ret c → Handle → Prop) :
    (handleProtocol chains).callRule fine c Q x ↔
      handleCalls chains x c ∧ ∀ r y, handleLeaves chains x c r y → Q r y :=
  Protocol.callRule_entered rfl trivial rfl

/-- A call that leaves the stage as it is. -/
theorem callRule_handle_kept (Q : Ret c → Handle → Prop)
    (hkept : ∀ r y, handleLeaves chains x c r y ↔ y = x) :
    (handleProtocol chains).callRule fine c Q x ↔ handleCalls chains x c ∧ ∀ r, Q r x := by
  simp [hkept]

end

/-! ## The procedures without the handle -/

/-- The operations on the handle and on `tz.init`, and the creation of threads. -/
@[reducible] def handleOp : Op → Bool
  | .load .tzInit | .store .tzInit _ | .clearTz | .pthreadCreate _ => true
  | .qseecomStartApp | .qseecomShutdownApp | .qseecomSetBandwidth _ | .qseecomSendCmd _ => true
  | .derefHandle => true
  | _ => false

/-- The operations on the slots and the database leave the app alone. -/
theorem not_handleOp_of_storage (o : Op) (ho : o.storage) : handleOp o = false := by
  cases o with
  | load v => cases v <;> first | rfl | cases ho
  | store v a => cases v <;> first | rfl | cases ho
  | _ => first | rfl | cases ho

/-- So do the procedures on them. -/
theorem not_handleCall_of_dbCall (c : Call) (hc : dbCall c) : handleCall c = false := by
  cases c <;> first | rfl | cases hc

section bodies

attribute [local simp] load store op call send ionSbuffer sameIonSbuffer

/-- A procedure that leaves the app alone does so in every step. -/
theorem handleFree_within {c : Call} (hc : handleCall c = false) :
    (body c).Within (handleOp · = false) (handleCall · = false) := by
  by_cases hdb : dbCall c
  · exact (dbCall_within hdb).mono not_handleOp_of_storage not_handleCall_of_dbCall
  cases c <;> first | cases hc; done | exact absurd trivial hdb | skip
  case vcsGetEnrolledFingerNum =>
    refine (countFingers_within ..).mono (fun o ho => ?_) fun _ => False.elim
    cases o with
    | load v => cases v <;> first | rfl | cases ho
    | _ => cases ho
  case fingerprintRemove fid =>
    by_cases hfid : fid = 0
    · have hall := removeFingers_within (A := (handleOp · = false)) (B := (handleCall · = false))
        (fun _ => rfl) rfl rfl (fun _ => rfl) (fun _ => rfl) maxNumFingers 1 0
      simp only [body, fingerprintRemove, hfid, if_true]
      exact .bind hall fun _ => by simp [Prog.Within, handleCall, inTurn, chained, handedOver]
    · simp [Prog.Within, body, fingerprintRemove, hfid, handleCall, inTurn, chained, handedOver]
  all_goals
    simp [Prog.Within, body, getTzState, setTzState, vcsTimeout, vcsTimeoutLoop, sensorUninit,
      sensorInit, sensorProcessSignal, sensorRegister, sensorCaptureStart, dbUninit,
      sendErrorNotice, sendAcquiredNotice, sendEnrollNotice, sendAuthenticatedNotice,
      sendRemoveNotice, fingerprintGetAuthId, fingerprintSetActiveGroup, fingerprintPreEnroll,
      fingerprintPostEnroll, fingerprintCancel, fingerprintCancelLoop, fingerprintEnumerate,
      setNotifyCallback, handleCall, inTurn, chained, handedOver]
  case fingerprintCancel => rintro _ _ (_ | _) <;> simp

end bodies

/-- An operation that leaves the app alone keeps the stage. -/
theorem handle_next_of_free {o : Op} (ho : handleOp o = false) (r : Resp o) (x : Handle) :
    x.next (.op o r) = some x := by
  cases o with
  | load v => cases v <;> first | rfl | cases ho
  | store v a => cases v <;> first | rfl | cases ho
  | _ => first | rfl | cases ho

section follows

variable {chains : Bool} {x y : Handle}

attribute [local simp ↓] load store op call send ionSbuffer sameIonSbuffer

/-- Code that has nothing to do with the handle. -/
theorem handle_keeps {α : Type} {p : Code α} {Q : α → Handle → Prop}
    (hp : p.Within (handleOp · = false) (handleCall · = false)) (hQ : ∀ a, Q a x) :
    (handleProtocol chains).Follows fine p Q x := by
  refine .keeps (T := (· = x)) (fun _ _ => rfl) ?_ ?_ ?_ hp rfl
  · rintro o r _ ho rfl
    exact ⟨_, handle_next_of_free ho r _, rfl⟩
  · rintro c _ hc rfl
    refine ⟨_, rfl, ?_, fun r z hz => ?_⟩
    · cases c <;> first | cases hc; done | exact fun h => absurd hc (by simp [h])
    · cases c <;> first | cases hc; done | exact hz
  · rintro a _ rfl
    exact hQ a

/-- Code that only reads the slots keeps the stage. -/
theorem handle_readsSlot {α : Type} {p : Code α} {Q : α → Handle → Prop}
    (hp : p.Within Op.readsSlot fun _ => False) (hQ : ∀ a, Q a x) :
    (handleProtocol chains).Follows fine p Q x := by
  refine handle_keeps (hp.mono (fun o ho => ?_) fun _ => False.elim) hQ
  cases o with
  | load v => cases v <;> first | rfl | cases ho
  | _ => cases ho

/-- The search for the matched finger keeps the stage. -/
theorem handle_findMatched {fakeFid : CInt} {n : ℕ} {idx : ℤ} {len : CInt}
    {Q : ℤ → Handle → Prop} (hQ : ∀ a, Q a x) :
    (handleProtocol chains).Follows fine (findMatched fakeFid 0 n idx len) Q x :=
  handle_readsSlot (findMatched_within ..) hQ

/-- Building the match request keeps the stage. -/
theorem handle_matchTemplates {n : ℕ} {idx : ℤ} {len : ℕ}
    {Q : List (ℕ × List UInt8) → Handle → Prop} (hQ : ∀ a, Q a x) :
    (handleProtocol chains).Follows fine (matchTemplates n idx len) Q x :=
  handle_readsSlot (matchTemplates_within ..) hQ

/-- The search for a free slot keeps the stage. -/
theorem handle_firstFreeSlot {n : ℕ} {idx : ℤ} {Q : ℤ → Handle → Prop} (hQ : ∀ a, Q a x) :
    (handleProtocol chains).Follows fine (firstFreeSlot n idx) Q x :=
  handle_readsSlot (firstFreeSlot_within ..) hQ

-- The stage is substituted at once; the general rule would walk over the rest twice.
attribute [local simp ↓ high] callRule_handle_kept

attribute [local simp] Handle.next Handle.assumes handleCalls handleLeaves handleCall inTurn
  chained handedOver handle_findMatched handle_matchTemplates handle_firstFreeSlot

/-- **One thread.** Every procedure keeps to the protocol. -/
theorem handleProtocol_valid (chains : Bool) : (handleProtocol chains).Valid fine body := by
  intro c _ x hc
  by_cases hfree : handleCall c = false
  · refine handle_keeps (handleFree_within hfree) fun r => ?_
    cases c <;> first | exact rfl | cases hfree
  cases c <;> first | exact absurd rfl hfree | skip
  all_goals simp at hc
  case vcsUpdateCalData => subst hc; simp [body, vcsUpdateCalData]
  case vcsCheckState => subst hc; simp [body, vcsCheckState]
  case vcsStartCapture => subst hc; simp [body, vcsStartCapture]
  case vcsStartCaptureWait => subst hc; simp [body, vcsStartCaptureWait]
  case vcsStartCaptureRead => subst hc; simp [body, vcsStartCaptureRead]
  case vcsAuthenticate => subst hc; simp [body, vcsAuthenticate]
  case vcsAuthenticateLoop => subst hc; simp [body, vcsAuthenticateLoop]
  case vcsEnroll =>
    subst hc
    simp [body, vcsEnroll, vcsEnrollCommit, payloadBind, enrollmentPasswordSet]
  case vcsEnrollLoop => subst hc; simp [body, vcsEnrollLoop]
  case vcsStartAuthenticate =>
    obtain ⟨hrest, hoff, rfl⟩ := hc
    simp [body, vcsStartAuthenticate, awaitIdle, hrest, hoff]
    intro _ _ _ _ ret y hy
    by_cases hret : ret = 0
    · obtain rfl := by simpa [hret] using hy
      simp only [hret, not_true, false_implies, and_true, forall_const]
      rintro (_ | _) <;> simp
    · obtain ⟨hy, -⟩ := by simpa [hret] using hy
      simp [hret, hy]
  case vcsStartEnroll =>
    obtain ⟨hrest, hoff, rfl⟩ := hc
    simp [body, vcsStartEnroll, hrest, hoff]
    intro ret y hy
    by_cases hret : ret = 0
    · obtain rfl := by simpa [hret] using hy
      simp only [hret, not_true, false_implies, and_true, forall_const]
      rintro (_ | _)
      · simp
      · simp
        rintro _ (_ | _) <;> simp
    · obtain ⟨hy, -⟩ := by simpa [hret] using hy
      simp [hret, hy]
  case vcsUpdateAuthToken =>
    obtain rfl | rfl := hc <;> simp [body, vcsUpdateAuthToken, getAuthToken]
  case vcsStartAuthSession => obtain rfl | rfl := hc <;> simp [body, vcsStartAuthSession]
  case vcsStopAuthSession => obtain rfl | rfl := hc <;> simp [body, vcsStopAuthSession]
  case vcsResume => subst hc; simp [body, vcsResume, deviceResume]
  case vcsUninit => obtain rfl | rfl := hc <;> simp [body, vcsUninit]
  case vcsInit =>
    obtain ⟨hrest, hoff⟩ := hc
    cases x with
    | off => exact absurd rfl hoff
    | settled => cases chains <;> simp [body, vcsInit]
    | known i r =>
      obtain rfl : i = r := hrest
      cases i <;> cases chains <;> simp [body, vcsInit]
  case fingerprintAuthenticate =>
    obtain ⟨hrest, hoff, rfl⟩ := hc
    simp [body, fingerprintAuthenticate, hrest, hoff]
  case fingerprintEnroll hat _ _ =>
    obtain ⟨hrest, hoff, rfl⟩ := hc
    cases hat with
    | none => simp [body, fingerprintEnroll, hrest]
    | some h => simp [body, fingerprintEnroll, hrest, hoff]
  case fingerprintClose =>
    obtain ⟨rfl, rfl⟩ := hc
    simp [body, fingerprintClose]
  case fingerprintOpen =>
    obtain ⟨rfl, rfl⟩ := hc
    simp [body, fingerprintOpen]

end follows

/-! ## One step -/

section step

variable {s s' : Hal} {t : Tid} {e : HalEvent} {x y : Handle}

/-- A thread that keeps its hands off leaves the app and `tz.init` as they are. -/
theorem Handle.off_step (hr : s.Runs fine t e s') (hy : Handle.off.next e = some y) :
    y = .off ∧ s'.mem.tz.init = s.mem.tz.init ∧ running s'.log = running s.log ∧
      usesHandle e = false ∧ startsApp e = false := by
  rw [hr.log]
  cases e with
  | op o r =>
    rw [(effect_of_runs hr).init]
    cases o with
    | load v => cases v <;> cases hy <;> exact ⟨rfl, rfl, rfl, rfl, rfl⟩
    | store v a => cases v <;> cases hy <;> exact ⟨rfl, rfl, rfl, rfl, rfl⟩
    | pthreadCreate w =>
      cases w <;> cases r <;> first
        | cases hy; done
        | (cases hy; exact ⟨rfl, rfl, rfl, rfl, rfl⟩)
    | _ =>
      first
        | cases hy; done
        | (cases hy; exact ⟨rfl, rfl, rfl, rfl, rfl⟩)
  | enter c =>
    cases hy
    rw [mem_of_enters hr]
    exact ⟨rfl, rfl, rfl, rfl, rfl⟩
  | done c r => cases hy

/-- Only a thread that knows that the app is up creates a worker, and leaves the app to it. -/
theorem Handle.born_step {w : Tid} {c : Call} (hr : s.Runs fine t e s') (hy : x.next e = some y)
    (hb : hal.born e = some (w, c)) (hc : handedOver c = true) :
    x = .known true true ∧ y = .off ∧ s'.mem.tz.init = s.mem.tz.init ∧
      running s'.log = running s.log := by
  rw [hr.log]
  cases e with
  | op o r =>
    rw [(effect_of_runs hr).init]
    cases o with
    | pthreadCreate v =>
      rcases x with _ | ⟨_ | _, _ | _⟩ | _ <;> cases v <;> cases r <;> cases hb <;>
        first
          | cases hy; done
          | cases hc; done
          | (cases hy; exact ⟨rfl, rfl, rfl, rfl⟩)
    | _ => cases hb
  | _ => cases hb

/-- Right knowledge stays right, and is used rightly. -/
theorem Handle.fits_step (hok : startsCleanly s t e) (hr : s.Runs fine t e s')
    (hx : x.fits s.mem.tz.init (running s.log)) (hy : x.next e = some y) :
    y.fits s'.mem.tz.init (running s'.log) ∧ (usesHandle e = true → running s.log = true) ∧
      (startsApp e = true → running s.log = false) := by
  by_cases hoff : x = .off
  · subst hoff
    obtain ⟨rfl, hinit, hrunning, huse, hstart⟩ := Handle.off_step hr hy
    rw [hinit, hrunning]
    exact ⟨hx, by simp [huse], by simp [hstart]⟩
  rw [hr.log]
  cases e with
  | done c r => cases hy
  | enter c =>
    cases hy
    rw [mem_of_enters hr]
    exact ⟨hx, by simp [usesHandle], by simp [startsApp]⟩
  | op o r =>
    rw [(effect_of_runs hr).init]
    cases o with
    | load v =>
      refine ⟨?_, by simp [usesHandle], by simp [startsApp]⟩
      cases v with
      | tzInit =>
        have hload := load_of_runs hr
        cases x with
        | off => exact absurd rfl hoff
        | settled => cases hy; exact ⟨hload.symm, hx ▸ hload.symm⟩
        | known i b => cases hy; exact hx
      | _ => cases hy; exact hx
    | store v a =>
      refine ⟨?_, by simp [usesHandle], by simp [startsApp]⟩
      cases v with
      | tzInit =>
        cases x with
        | known i b => cases hy; exact ⟨rfl, hx.2⟩
        | _ => cases hy
      | _ => cases hy; exact hx
    | clearTz =>
      refine ⟨?_, by simp [usesHandle], by simp [startsApp]⟩
      cases x with
      | settled => cases hy; exact ⟨rfl, hx ▸ hok⟩
      | _ => cases hy
    | pthreadCreate w =>
      refine ⟨?_, by simp [usesHandle], by simp [startsApp]⟩
      -- a worker is created by a thread that knows that the app is up
      rcases x with _ | ⟨_ | _, _ | _⟩ | _ <;> cases w <;> cases r <;> cases hy <;>
        first | exact hx | exact hx.1.trans hx.2.symm
    | qseecomStartApp =>
      refine ⟨?_, by simp [usesHandle], ?_⟩
      all_goals rcases x with _ | ⟨i, _ | _⟩ | _ <;> cases hy
      · exact ⟨hx.1, by simp [running, hx.2]⟩
      · exact fun _ => hx.2
    | qseecomShutdownApp =>
      refine ⟨?_, ?_, by simp [startsApp]⟩
      all_goals rcases x with _ | ⟨i, _ | _⟩ | _ <;> cases hy
      · exact ⟨hx.1, rfl⟩
      · exact fun _ => hx.2
    | derefHandle | qseecomSetBandwidth high | qseecomSendCmd req =>
      refine ⟨?_, ?_, by simp [startsApp]⟩
      all_goals rcases x with _ | ⟨i, _ | _⟩ | _ <;> cases hy
      · exact hx
      · exact fun _ => hx.2
    | _ =>
      cases hy
      exact ⟨hx, by simp [usesHandle], by simp [startsApp]⟩

end step

/-! ## Every run -/

/-- Who takes turns starts from a settled app, a worker from one that is up. -/
def handleRoles : Roles Resp Ret Handle where
  protocol c := handleProtocol (chained c)
  away := .off
  start c := if handedOver c then .known true true else if inTurn c then .settled else .off
  final _ _ x := x.rests

/-- Thread `t`, which takes turns, has begun and not finished. -/
structure Active (s : Hal) (t : Tid) : Prop where
  turn : ∃ c, s.entry t = some c ∧ inTurn c = true
  begun : s.own t ≠ []
  unfinished : s.fin t = false

/-- What the stages say of the threads that take no turns or have not begun. -/
structure Waits (s : Hal) (φ : Tid → Handle) : Prop where
  free : ∀ t c, s.entry t = some c → inTurn c = false → φ t = .off
  fresh : ∀ t c, s.entry t = some c → s.own t = [] → φ t = handleRoles.start c ∧ s.fin t = false
  unused : ∀ t, s.pool t = none → s.own t = []

/-- **The invariant.** Whose turn it is knows the app; between turns `tz.init` says whether the
app runs; a worker that has not begun will find it running. -/
structure Turns (s : Hal) (φ : Tid → Handle) : Prop where
  active : ∀ t, Active s t → (φ t).fits s.mem.tz.init (running s.log)
  idle : (∀ t, ¬ Active s t) → s.mem.tz.init = running s.log
  next : ∀ w c, s.entry w = some c → handedOver c = true → s.own w = [] →
    s.mem.tz.init = true ∧ running s.log = true ∧ ∀ t, Active s t → φ t = .off

/-- Every call from outside and every worker may be started. -/
theorem handleRoles_starts {c : Call} (hc : halCalls c = true ∨ ∃ w : Worker, c = w.call) :
    handleRoles.Starts fine c := by
  simp only [Roles.Starts, handleRoles, Protocol.follows_call, callRule_handle]
  obtain hc | ⟨w, rfl⟩ := hc
  · cases c <;> first
      | cases hc; done
      | simp [handleCalls, handleLeaves, handleCall, inTurn, chained, handedOver]
  · cases w <;> simp [Worker.call, handleCalls, handleLeaves, handleCall, inTurn, chained, handedOver]

/-- A call that hands the app over takes its turn. -/
theorem inTurn_of_handedOver {c : Call} (hc : handedOver c = true) : inTurn c = true := by
  cases c <;> first | rfl | cases hc

/-- The log grows by an event that is right. -/
theorem HandleKept.cons {s s' : Hal} {t : Tid} {e : HalEvent} (h : HandleKept s)
    (hlog : s'.log = (t, e) :: s.log)
    (he : (usesHandle e = true → running s.log = true) ∧
      (startsApp e = true → running s.log = false)) : HandleKept s' := by
  intro later u d earlier hsplit
  rw [hlog] at hsplit
  cases later with
  | nil => cases hsplit; exact he
  | cons te later =>
    obtain ⟨-, hsplit⟩ := List.cons.inj hsplit
    exact h later u d earlier hsplit

section turns

variable {s s' : Hal} {φ : Tid → Handle} {t u : Tid} {e : HalEvent} {y : Handle} {c d : Call}

/-- When a step is taken in turn, everybody else waits. -/
theorem not_active_of_oneAtATime (h : oneAtATime s t) (hut : u ≠ t) : ¬ Active s u := by
  rintro ⟨⟨c, hu, hc⟩, hbegun, hfin⟩
  obtain hfin' | ⟨hown, -⟩ := h u c hut hu hc
  · simp [hfin] at hfin'
  · exact hbegun hown

/-- The thread that takes a step keeps the stage the protocol gives it. -/
theorem stagesAfter_self (hr : s.Runs fine t e s') :
    stagesAfter handleRoles hal φ t e y t = y := by
  obtain ⟨c, hb, -⟩ | ⟨-, heq⟩ := stagesAfter_cases handleRoles hal φ t e y t
  · exact absurd (hr.fresh t c hb) hr.mem_pool
  · rw [heq, Function.update_self]

/-- A thread that has taken a step has an event. -/
theorem own_ne_nil_of_runs (hr : s.Runs fine t e s') : s'.own t ≠ [] := by
  rw [hr.own, if_pos rfl]
  exact List.cons_ne_nil _ _

/-- A call that takes no turn starts with nothing to do with the app. -/
theorem start_of_not_inTurn (hc : inTurn c = false) : handleRoles.start c = .off := by
  cases c <;> first | rfl | cases hc

/-- A step keeps what is known of the threads that wait. -/
theorem Waits.run (h : Waits s φ) (hr : s.Runs fine t e s') (ht : s.entry t = some d)
    (hy : inTurn d = false → y = .off) : Waits s' (stagesAfter handleRoles hal φ t e y) := by
  have ht' := (hr.entry t d).mpr (.inl ht)
  refine ⟨fun u c hu hc => ?_, fun u c hu hown => ?_, fun u hu => ?_⟩
  · by_cases hut : u = t
    · subst hut
      obtain rfl : d = c := Option.some.inj (ht'.symm.trans hu)
      rw [stagesAfter_self hr, hy hc]
    · obtain ⟨hu, -, hφ⟩ | ⟨-, -, -, hφ⟩ := hr.others (R := handleRoles) hut φ y hu
      · rw [hφ, h.free u c hu hc]
      · rw [hφ, start_of_not_inTurn hc]
  · have hut : u ≠ t := fun hut => own_ne_nil_of_runs hr (hut ▸ hown)
    rw [hr.own, if_neg hut] at hown
    obtain ⟨hu, hfin, hφ⟩ | ⟨-, -, hfin, hφ⟩ := hr.others (R := handleRoles) hut φ y hu
    · rw [hφ, hfin]
      exact h.fresh u c hu hown
    · exact ⟨hφ, hfin⟩
  · have hut : u ≠ t := by
      rintro rfl
      simp [State.entry, hu] at ht'
    rw [hr.own, if_neg hut]
    refine h.unused u ?_
    cases hpool : s.pool u with
    | none => rfl
    | some th => simp [hr.pool_of_ne hut hpool] at hu

/-- Nobody else becomes active by a step. -/
theorem Waits.active_of_other (h : Waits s φ) (hr : s.Runs fine t e s') (hut : u ≠ t)
    (hu : Active s' u) : Active s u ∧ stagesAfter handleRoles hal φ t e y u = φ u := by
  obtain ⟨⟨c, hu, hc⟩, hbegun, hfin⟩ := hu
  rw [hr.own, if_neg hut] at hbegun
  obtain ⟨hu, hfin', hφ⟩ | ⟨-, hnone, -⟩ := hr.others (R := handleRoles) hut φ y hu
  · exact ⟨⟨⟨c, hu, hc⟩, hbegun, hfin' ▸ hfin⟩, hφ⟩
  · exact absurd (h.unused u hnone) hbegun

/-- The others stay active, and their waiting is over only by their own steps. -/
theorem Active.other (hu : Active s u) (hr : s.Runs fine t e s') (hut : u ≠ t) : Active s' u := by
  obtain ⟨⟨c, hu, hc⟩, hbegun, hfin⟩ := hu
  obtain ⟨th, hth, -⟩ := Option.map_eq_some_iff.mp hu
  refine ⟨⟨c, (hr.entry u c).mpr (.inl hu), hc⟩, ?_, ?_⟩
  · rwa [hr.own, if_neg hut]
  · rw [← hfin, State.fin, State.fin, hr.pool_of_ne hut hth, hth]

/-- A worker that has not begun was there before, or was created by a thread that knew that the
app is up. -/
theorem worker_cases (hr : s.Runs fine t e s') (hy : (φ t).next e = some y)
    (hc : handedOver c = true) (hu : s'.entry u = some c) (hown : s'.own u = []) :
    u ≠ t ∧ (s.entry u = some c ∧ s.own u = [] ∨ φ t = .known true true ∧ y = .off ∧
      s'.mem.tz.init = s.mem.tz.init ∧ running s'.log = running s.log) := by
  have hut : u ≠ t := fun hut => own_ne_nil_of_runs hr (hut ▸ hown)
  rw [hr.own, if_neg hut] at hown
  obtain ⟨hu, -⟩ | ⟨hb, -⟩ := hr.others (R := handleRoles) hut φ y hu
  · exact ⟨hut, .inl ⟨hu, hown⟩⟩
  · exact ⟨hut, .inr (Handle.born_step hr hy hb hc)⟩

/-- **A step out of turn** leaves everything as it is. -/
theorem Turns.run_free (h : Turns s φ) (hw : Waits s φ) (hr : s.Runs fine t e s')
    (ht : s.entry t = some d) (hd : inTurn d = false) (hy : (φ t).next e = some y) :
    Turns s' (stagesAfter handleRoles hal φ t e y) := by
  have hoff := hw.free t d ht hd
  obtain ⟨rfl, hinit, hrunning, -⟩ := Handle.off_step hr (hoff ▸ hy)
  have hne : ∀ {s : Hal} {u}, s.entry t = some d → Active s u → u ≠ t := by
    rintro s u ht ⟨⟨c, hu, hc⟩, -, -⟩ rfl
    obtain rfl : d = c := Option.some.inj (ht.symm.trans hu)
    simp [hd] at hc
  have ht' := (hr.entry t d).mpr (.inl ht)
  refine ⟨fun u hu => ?_, fun hu => ?_, fun w c hwc hc hown => ?_⟩
  · obtain ⟨hu', hφ⟩ := hw.active_of_other hr (y := .off) (hne ht' hu) hu
    rw [hφ, hinit, hrunning]
    exact h.active u hu'
  · rw [hinit, hrunning]
    exact h.idle fun u hu' => hu u (hu'.other hr (hne ht hu'))
  · obtain ⟨-, ⟨hwc, hown⟩ | ⟨hknown, -⟩⟩ := worker_cases hr hy hc hwc hown
    · obtain ⟨hup, hrun, hall⟩ := h.next w c hwc hc hown
      refine ⟨hinit.trans hup, hrunning.trans hrun, fun u hu => ?_⟩
      obtain ⟨hu', hφ⟩ := hw.active_of_other hr (y := .off) (hne ht' hu) hu
      rw [hφ, hall u hu']
    · cases hoff.symm.trans hknown

/-- The thread whose turn it is knows the app. -/
theorem Turns.fits (h : Turns s φ) (hw : Waits s φ) (ht : s.entry t = some d)
    (hd : inTurn d = true) (hturn : oneAtATime s t) (hrun : s.fin t = false) :
    (φ t).fits s.mem.tz.init (running s.log) := by
  by_cases hown : s.own t = []
  · rw [(hw.fresh t d ht hown).1]
    by_cases hover : handedOver d = true
    · obtain ⟨hup, hrunning, -⟩ := h.next t d ht hover hown
      simp [handleRoles, hover, Handle.fits, hup, hrunning]
    · have hidle := h.idle fun u hu => by
        by_cases hut : u = t
        · exact hu.begun (hut ▸ hown)
        · exact not_active_of_oneAtATime hturn hut hu
      simp [handleRoles, hover, hd, Handle.fits, hidle]
  · exact h.active t ⟨⟨d, ht, hd⟩, hown, hrun⟩

/-- **A step in turn** leads from knowledge to knowledge. -/
theorem Turns.run_turn (h : Turns s φ) (hw : Waits s φ) (hr : s.Runs fine t e s')
    (ht : s.entry t = some d) (hd : inTurn d = true) (hturn : oneAtATime s t)
    (hrun : s.fin t = false) (hy : (φ t).next e = some y)
    (hx : (φ t).fits s.mem.tz.init (running s.log))
    (hfits : y.fits s'.mem.tz.init (running s'.log)) (hrests : s'.fin t = true → y.rests) :
    Turns s' (stagesAfter handleRoles hal φ t e y) := by
  have hself : ∀ u, Active s' u → stagesAfter handleRoles hal φ t e y u = y := by
    intro u hu
    by_cases hut : u = t
    · rw [hut, stagesAfter_self hr]
    · exact absurd (hw.active_of_other hr (y := y) hut hu).1 (not_active_of_oneAtATime hturn hut)
  refine ⟨fun u hu => ?_, fun hidle => ?_, fun w c hwc hc hown => ?_⟩
  · rw [hself u hu]
    exact hfits
  · refine hfits.agree (hrests ?_)
    by_contra hfin
    exact hidle t ⟨⟨d, (hr.entry t d).mpr (.inl ht), hd⟩, own_ne_nil_of_runs hr, by simpa using hfin⟩
  · obtain ⟨hwt, ⟨hwc, hown⟩ | ⟨hknown, rfl, hinit, hrunning⟩⟩ := worker_cases hr hy hc hwc hown
    · obtain ⟨hup, hup', hall⟩ := h.next w c hwc hc hown
      have hbegun : s.own t ≠ [] := by
        intro htown
        obtain hfin | ⟨-, hnot⟩ := hturn w c hwt hwc (inTurn_of_handedOver hc)
        · simp [(hw.fresh w c hwc hown).2] at hfin
        · simp [hnot htown] at hc
      have hoff := hall t ⟨⟨d, ht, hd⟩, hbegun, hrun⟩
      obtain ⟨rfl, hinit, hrunning, -⟩ := Handle.off_step hr (hoff ▸ hy)
      exact ⟨hinit.trans hup, hrunning.trans hup', hself⟩
    · rw [hknown] at hx
      exact ⟨hinit.trans hx.1, hrunning.trans hx.2, hself⟩

end turns

/-! ### Arrivals and responses -/

section arrivals

variable {s : Hal} {φ : Tid → Handle} {t u : Tid} {c : Call}

/-- A thread that arrives is not active yet. -/
theorem active_add (hown : s.own t = []) (ht : s.pool t = none) :
    Active (s.add t c) u ↔ Active s u := by
  by_cases hut : u = t
  · subst hut
    exact ⟨fun h => absurd hown h.begun, fun h => absurd hown h.begun⟩
  · have hentry : (s.add t c).entry u = s.entry u := by rw [State.entry_add, if_neg hut]
    have hfin : (s.add t c).fin u = s.fin u := by
      simp only [State.fin, State.pool_add, if_neg hut]
    exact ⟨fun h => ⟨hentry ▸ h.turn, h.begun, hfin ▸ h.unfinished⟩,
      fun h => ⟨hentry ▸ h.turn, h.begun, hfin ▸ h.unfinished⟩⟩

/-- The turns outlast an arrival. -/
theorem Turns.arrive (h : Turns s φ) (hw : Waits s φ) (hc : halCalls c = true)
    (ht : s.pool t = none) : Turns (s.add t c) (Function.update φ t (handleRoles.start c)) := by
  have hown := hw.unused t ht
  have hactive := fun u => active_add (u := u) (c := c) hown ht
  have hφ : ∀ u, Active s u → Function.update φ t (handleRoles.start c) u = φ u := fun u hu =>
    Function.update_of_ne (fun hut : u = t => hu.begun (hut ▸ hown)) _ _
  refine ⟨fun u hu => ?_, fun hu => h.idle fun u hu' => hu u ((hactive u).mpr hu'),
    fun w d hwd hd hwown => ?_⟩
  · have hu' := (hactive u).mp hu
    rw [hφ u hu']
    exact h.active u hu'
  · rw [State.entry_add] at hwd
    split at hwd
    · -- no worker arrives from outside
      obtain rfl := Option.some.inj hwd
      cases c <;> first | cases hd; done | cases hc
    · obtain ⟨hup, hup', hall⟩ := h.next w d hwd hd hwown
      exact ⟨hup, hup', fun u hu => (hφ u ((hactive u).mp hu)).trans (hall u ((hactive u).mp hu))⟩

/-- So does what the stages wait for. -/
theorem Waits.arrive (h : Waits s φ) :
    Waits (s.add t c) (Function.update φ t (handleRoles.start c)) := by
  refine ⟨fun u d hu hd => ?_, fun u d hu hown => ?_, fun u hu => ?_⟩
  · rw [State.entry_add] at hu
    split at hu
    · rename_i hut
      obtain rfl := Option.some.inj hu
      rw [hut, Function.update_self, start_of_not_inTurn hd]
    · rename_i hut
      rw [Function.update_of_ne hut, h.free u d hu hd]
  · rw [State.entry_add] at hu
    split at hu
    · rename_i hut
      obtain rfl := Option.some.inj hu
      rw [hut, Function.update_self]
      exact ⟨rfl, by simp [State.fin, State.pool_add, Thread.start, Prog.finished]⟩
    · rename_i hut
      rw [Function.update_of_ne hut, State.fin, State.pool_add, if_neg hut]
      exact h.fresh u d hu hown
  · rw [State.pool_add] at hu
    split at hu
    · cases hu
    · exact h.unused u hu

/-- What is relied on is what happens. -/
theorem Waits.assumes {s' : Hal} {e : HalEvent} (h : Waits s φ) (hr : s.Runs fine t e s')
    (ht : s.entry t = some c) (hclean : startsCleanly s t e)
    (hfits : inTurn c = true → (φ t).fits s.mem.tz.init (running s.log)) :
    (φ t).assumes (chained c) e := by
  cases e with
  | op o r =>
    cases o with
    | load v =>
      cases v with
      | tzInit =>
        intro i b hknown
        by_cases hc : inTurn c = true
        · have hx := hfits hc
          rw [hknown] at hx
          exact (load_of_runs hr).trans hx.1
        · rw [h.free t c ht (by simpa using hc)] at hknown
          cases hknown
      | _ => trivial
    | qseecomStartApp => exact hclean c ht
    | qseecomSetBandwidth high =>
      cases high with
      | true => exact hclean c ht
      | false => trivial
    | _ => trivial
  | _ => trivial

end arrivals

/-- A thread that takes a step has not finished. -/
theorem fin_of_runs {s s' : Hal} {t : Tid} {e : HalEvent} (hr : s.Runs fine t e s') :
    s.fin t = false := by
  obtain ⟨⟨c, p⟩, q, m, hth, hn, -, -⟩ := hr.moves
  simp only [State.fin, hth]
  cases p with
  | ret a => cases hn
  | op o k | call c k => rfl

/-- A thread that has finished leaves the app settled. -/
theorem rests_of_staged {s s' : Hal} {φ : Tid → Handle} {t : Tid} {e : HalEvent} {y : Handle}
    (hs : Staged handleRoles fine s'.pool (stagesAfter handleRoles hal φ t e y))
    (hr : s.Runs fine t e s') (hfin : s'.fin t = true) : y.rests := by
  obtain ⟨th, -, -, hth, -⟩ := hr.moves
  obtain ⟨p, -, hp⟩ := hr.code hth
  have hfollows := hs.follows t _ hp
  rw [stagesAfter_self hr] at hfollows
  rw [State.fin, hp] at hfin
  cases p with
  | ret a => exact hfollows
  | op o k | call c k => cases hfin

/-- **The handle of the app.** From a device that has not been opened, in every run in which who
takes turns takes them one at a time and the app starts cleanly, the handle is used only while the
app runs, and the app started only while it does not. -/
theorem handleKept {m : Mem} {s : Hal} (hm : m.tz.init = false)
    (h : (Hal.idle m).Reaches fine halCalls (fun s t e => takesTurns s t ∧ startsCleanly s t e) s) :
    HandleKept s := by
  suffices hI : ∃ φ, Staged handleRoles fine s.pool φ ∧
      (Turns s φ ∧ Waits s φ ∧ HandleKept s) by
    obtain ⟨-, -, -, -, hkept⟩ := hI
    exact hkept
  refine State.Reaches.staged (I := fun s φ => Turns s φ ∧ Waits s φ ∧ HandleKept s)
    (fun _ => .off) (fun _ => handleProtocol_valid _)
    (fun _ _ _ _ _ _ _ hb => handleRoles_starts (.inr (born_worker hb)))
    (fun c hc => handleRoles_starts (.inl hc))
    ⟨fun t th ht => by simp [Hal.idle] at ht, fun _ _ => rfl⟩ ⟨?_, ?_, ?_⟩ ?_ ?_ ?_ h
  · refine ⟨fun t ht => ?_, fun _ => hm, fun w c hw => ?_⟩
    · exact absurd rfl ht.begun
    · simp [Hal.idle, State.entry] at hw
  · exact ⟨fun t c ht => by simp [Hal.idle, State.entry] at ht,
      fun t c ht => by simp [Hal.idle, State.entry] at ht, fun _ _ => rfl⟩
  · intro later t e earlier hlog
    simp [Hal.idle] at hlog
  · rintro s φ t c - ⟨hturns, hwaits, hkept⟩ hc ht
    exact ⟨hturns.arrive hwaits hc ht, hwaits.arrive, hkept⟩
  · rintro s φ t th e s' - ⟨hturns, hwaits, -⟩ ⟨hturn, hclean⟩ hth hr
    have ht : s.entry t = some th.entry := by rw [State.entry, hth]; rfl
    exact hwaits.assumes hr ht hclean fun hd =>
      hturns.fits hwaits ht hd (hturn _ ht hd) (fin_of_runs hr)
  · rintro s φ t th e s' y hs ⟨hturns, hwaits, hkept⟩ ⟨hturn, hclean⟩ hth hr hy hs'
    have ht : s.entry t = some th.entry := by rw [State.entry, hth]; rfl
    by_cases hd : inTurn th.entry = true
    · have hone := hturn th.entry ht hd
      have hfin := fin_of_runs hr
      have hx := hturns.fits hwaits ht hd hone hfin
      obtain ⟨hfits, huse⟩ := Handle.fits_step hclean hr hx hy
      refine ⟨hturns.run_turn hwaits hr ht hd hone hfin hy hx hfits fun hfin' => ?_,
        hwaits.run hr ht fun hd' => by simp [hd] at hd', hkept.cons hr.log huse⟩
      exact rests_of_staged hs' hr hfin'
    · have hd : inTurn th.entry = false := by simpa using hd
      have hoff := hwaits.free t _ ht hd
      obtain ⟨hyoff, -, -, huse, hstart⟩ := Handle.off_step hr (hoff ▸ hy)
      exact ⟨hturns.run_free hwaits hr ht hd hy, hwaits.run hr ht fun _ => hyoff,
        hkept.cons hr.log ⟨by simp [huse], by simp [hstart]⟩⟩

/-! ## Runs -/

/-- The names used in the runs below. -/
def firstNames (t : Tid) : Bool := t < 4

/-- Whether everybody else who takes turns has finished, and no thread is created. -/
def inOrder (s : Hal) (t : Tid) (e : HalEvent) : Bool :=
  ((List.range 4).all fun u => u == t || s.fin u || !(s.entry u).any inTurn) &&
    (hal.born e).isNone

/-- Whether the app starts cleanly, whoever starts it. -/
def startsWell (s : Hal) : HalEvent → Bool
  | .op .qseecomStartApp r | .op (.qseecomSetBandwidth true) r => r == 0
  | .op .clearTz _ => !s.mem.tz.init
  | _ => true

/-- `takesTurns` from its executable form. -/
theorem takesTurns_of_inOrder {s : Hal} {t : Tid} {e : HalEvent}
    (hpool : ∀ u, firstNames u = false → s.pool u = none) (h : inOrder s t e = true) :
    takesTurns s t := by
  intro _ _ _ u c hut hu hc
  by_cases hname : firstNames u = true
  · have hall := List.all_eq_true.mp (Bool.and_eq_true_iff.mp h).1 u
      (List.mem_range.mpr (by simpa [firstNames] using hname))
    exact .inl (by simpa [hut, hu, hc] using hall)
  · simp [State.entry, hpool u (by simpa using hname)] at hu

/-- `startsCleanly` from its executable form. -/
theorem startsCleanly_of_startsWell {s : Hal} {t : Tid} {e : HalEvent}
    (h : startsWell s e = true) : startsCleanly s t e := by
  cases e with
  | op o r =>
    cases o with
    | qseecomStartApp => exact fun _ _ _ => by simpa [startsWell] using h
    | qseecomSetBandwidth high =>
      cases high with
      | true => exact fun _ _ _ => by simpa [startsWell] using h
      | false => trivial
    | clearTz => simpa [startsWell, startsCleanly] using h
    | _ => trivial
  | _ => trivial

/-- A run in which nobody is created is one in which turns are taken, if everybody waits. -/
theorem reaches_of_inOrder {m : Mem} {ls : List (Label hal)} {s : Hal}
    {ok : Hal → Tid → HalEvent → Prop} {allowed : Hal → Tid → HalEvent → Bool}
    (hok : ∀ s t e, allowed s t e = true → ok s t e)
    (hls : ls.all (State.arrivesAs firstNames) = true)
    (h : (Hal.idle m).exec fine halCalls (fun s t e => inOrder s t e && allowed s t e) ls =
      some s) : (Hal.idle m).Reaches fine halCalls (fun s t e => takesTurns s t ∧ ok s t e) s := by
  refine State.Reaches.refl.exec_of firstNames (fun s t e hpool ha => ?_)
    (fun s t e u c ha hb => ?_) hls (fun _ _ => rfl) h
  · obtain ⟨horder, ha⟩ := Bool.and_eq_true_iff.mp ha
    exact ⟨takesTurns_of_inOrder hpool horder, hok s t e ha⟩
  · have hborn := (Bool.and_eq_true_iff.mp (Bool.and_eq_true_iff.mp ha).1).2
    simp [hb] at hborn

/-- `fingerprint_open` with answers to all its commands. -/
def openDevice : List (Label hal) :=
  .arrive 1 .fingerprintOpen :: ticks 1 57 ++ answer 1 (.good 0) ++ ticks 1 1 ++
    answer 1 (.good 0) ++ ticks 1 2 ++ answer 1 (.good 0) ++ ticks 1 7 ++ answer 1 (.good 0) ++
    ticks 1 14 ++ answer 1 (.good 0) ++ ticks 1 1 ++ answer 1 (.good 0) ++ ticks 1 2 ++
    answer 1 (.good 0) ++ ticks 1 3 ++ answer 1 (.good 0) ++ ticks 1 7 ++ answer 1 (.good 0) ++
    answer 1 (.good 0) ++ ticks 1 1 ++ answer 1 (.good 0) ++ ticks 1 15

/-- `fingerprint_close` with answers to all its commands. -/
def closeDevice : List (Label hal) :=
  .arrive 2 .fingerprintClose :: ticks 2 25 ++ answer 2 (.good 0) ++ ticks 2 3 ++
    answer 2 (.good 0) ++ answer 2 (.good 0) ++ ticks 2 2 ++ answer 2 (.good 0) ++ ticks 2 3 ++
    answer 2 (.good 0) ++ ticks 2 5 ++ answer 2 (.good 0) ++ ticks 2 16

set_option maxRecDepth 2000 in
/-- The device is opened and closed. -/
theorem handleKept_closed : ∃ s : Hal, s.fin 1 = true ∧ s.fin 2 = true ∧ HandleKept s := by
  obtain ⟨s, hs, h₁, h₂⟩ : ∃ s, (Hal.idle .zero).exec fine halCalls
      (fun s t e => inOrder s t e && startsWell s e) (openDevice ++ closeDevice) = some s ∧
      s.fin 1 = true ∧ s.fin 2 = true := ⟨_, rfl, rfl, rfl⟩
  exact ⟨s, h₁, h₂,
    handleKept rfl (reaches_of_inOrder (fun _ _ _ => startsCleanly_of_startsWell) rfl hs)⟩

/-- One misuse of the handle, or one start too many, is enough. -/
theorem not_handleKept {s : Hal} {t : Tid} {e : HalEvent} {earlier : List (Tid × HalEvent)}
    (hlog : s.log = (t, e) :: earlier)
    (he : usesHandle e = true ∧ running earlier = false ∨
      startsApp e = true ∧ running earlier = true) : ¬ HandleKept s := by
  intro h
  obtain ⟨huse, hstart⟩ := h [] t e earlier hlog
  obtain ⟨he, hrunning⟩ | ⟨he, hrunning⟩ := he
  · simp [hrunning] at huse
    simp [he] at huse
  · simp [hrunning] at hstart
    simp [he] at hstart

/-- **A failed start.** The first `QSEECom_start_app` of `fingerprint_open` fails; `vcs_uninit`
dereferences the NULL handle all the same, and the process dies of it before it has sent a
command. -/
theorem failed_start : ∃ s, (Hal.idle .zero).Reaches fine halCalls
    (fun s t _ => takesTurns s t ∧ True) s ∧ ¬ HandleKept s ∧ Faulted s 1 ∧
      (s.log.filter fun te => usesHandle te.2) = [(1, .op .derefHandle false)] := by
  obtain ⟨s, hs, e, earlier, hlog, huse, hrunning, hfault, hused⟩ : ∃ s,
      (Hal.idle .zero).exec fine halCalls (fun s t e => inOrder s t e && true)
        (.arrive 1 .fingerprintOpen :: ticks 1 52 ++ .run 1 [.num 5] :: ticks 1 2) = some s ∧
      ∃ e earlier, s.log = (1, e) :: earlier ∧ usesHandle e = true ∧ running earlier = false ∧
        Faulted s 1 ∧ (s.log.filter fun te => usesHandle te.2) = [(1, .op .derefHandle false)] :=
    ⟨_, rfl, _, _, rfl, rfl, rfl, ⟨_, _, rfl⟩, rfl⟩
  exact ⟨s, reaches_of_inOrder (fun _ _ _ _ => trivial) rfl hs,
    not_handleKept hlog (.inl ⟨huse, hrunning⟩), hfault, hused⟩

/-- The bandwidth is refused. -/
def refusesBandwidth : HalEvent → Bool
  | .op (.qseecomSetBandwidth true) r => r != 0
  | _ => false

set_option maxRecDepth 2000 in
/-- The bandwidth is refused to `fingerprint_authenticate`, a cancellation is left waiting, and the
device is closed: the app is started while it runs. -/
theorem refused_bandwidth : ∃ s, (Hal.idle .zero).Reaches fine halCalls (fun s t e =>
      takesTurns s t ∧ (startsCleanly s t e ∨ refusesBandwidth e = true)) s ∧ ¬ HandleKept s := by
  obtain ⟨s, hs, e, earlier, hlog, huse, hrunning⟩ : ∃ s, (Hal.idle .zero).exec fine halCalls
      (fun s t e => inOrder s t e && (startsWell s e || refusesBandwidth e))
      (.arrive 1 (.fingerprintAuthenticate 9) :: ticks 1 39 ++ .run 1 [.num 5] :: ticks 1 1 ++
        .arrive 2 .fingerprintCancel :: ticks 2 18 ++ .arrive 3 .fingerprintClose ::
          ticks 3 19) = some s ∧
      ∃ e earlier, s.log = (3, e) :: earlier ∧ startsApp e = true ∧ running earlier = true :=
    ⟨_, rfl, _, _, rfl, rfl, rfl⟩
  exact ⟨s, reaches_of_inOrder
    (fun _ _ _ h => (Bool.or_eq_true_iff.mp h).imp startsCleanly_of_startsWell id) rfl hs,
    not_handleKept hlog (.inr ⟨huse, hrunning⟩)⟩

/-- `tz` is cleared. -/
def clearsTz : HalEvent → Bool
  | .op .clearTz _ => true
  | _ => false

set_option maxRecDepth 2000 in
/-- The app does not resume for `fingerprint_authenticate`, and the device is opened again: the app
is started while it runs. -/
theorem opened_again : ∃ s, (Hal.idle .zero).Reaches fine halCalls (fun s t e =>
      takesTurns s t ∧ (startsCleanly s t e ∨ clearsTz e = true)) s ∧ ¬ HandleKept s := by
  obtain ⟨s, hs, e, earlier, hlog, huse, hrunning⟩ : ∃ s, (Hal.idle .zero).exec fine halCalls
      (fun s t e => inOrder s t e && (startsWell s e || clearsTz e))
      (.arrive 1 (.fingerprintAuthenticate 9) :: ticks 1 43 ++ answer 1 .lost ++ ticks 1 1 ++
        .arrive 2 .fingerprintOpen :: ticks 2 53) = some s ∧
      ∃ e earlier, s.log = (2, e) :: earlier ∧ startsApp e = true ∧ running earlier = true :=
    ⟨_, rfl, _, _, rfl, rfl, rfl⟩
  exact ⟨s, reaches_of_inOrder
    (fun _ _ _ h => (Bool.or_eq_true_iff.mp h).imp startsCleanly_of_startsWell id) rfl hs,
    not_handleKept hlog (.inr ⟨huse, hrunning⟩)⟩

end KlteCommon.Analysis
