import KlteCommon.Analysis.Capture

/-!
# Which signal a capture takes for its own

`vcs_start_capture` arms the interrupt of the sensor, waits until `sensor.signal` is set and goes on
to read the image. The flag is set by the signal handler and cleared behind the wait, but not when
the interrupt is armed.

The ladder: `Watch` is what a thread has seen of the flag since it armed the sensor, and the bodies
read an image only when it has been found set (`watchProtocol_valid`), provided that a thread that
was told to stop is not told to go on; what the flag was at every moment of a run is read off the
log (`signalNow_of_reaches`); so if it was clear when the sensor was armed, a signal was handled in
between (`signalsFresh_of_reaches`). A signal that comes behind the wait is taken by the next
capture (`stale_signal`).
-/

set_option autoImplicit false

namespace KlteCommon.Analysis

open KlteCommon.Computation KlteCommon.Fingerprint

/-! ## The tests of `vcs_check_state` -/

/-- Where a thread is in `vcs_check_state`: in no test, before its first or its second read, or
about to store `STATE_IDLE`. -/
inductive Test
  | out
  | first
  | second
  | aborting
  deriving DecidableEq

/-- A test after an event. -/
def Test.after (x : Test) : HalEvent → Test
  | .enter .vcsCheckState => .first
  | .op (.load .tzState) state =>
    match x with
    | .first => if state = .stateIdle then .out else .second
    | .second => if state = .stateCancel then .aborting else .out
    | x => x
  | .op (.store .tzState _) _ => .out
  | _ => x

/-- The event is the read on which the test fails. -/
def Test.fails (x : Test) : HalEvent → Bool
  | .op (.load .tzState) state =>
    x = .first ∧ state = .stateIdle ∨ x = .second ∧ state = .stateCancel
  | _ => false

/-- The event is the read on which the test passes. -/
def Test.passes (x : Test) : HalEvent → Bool
  | .op (.load .tzState) state => x = .second ∧ state ≠ .stateCancel
  | _ => false

/-! ## What is observed -/

/-- `sensor_capture_start`. -/
def arms : HalEvent → Bool
  | .op (.ioctl (.setDrdyInt flag)) _ => flag == 1
  | _ => false

/-- `sensor.signal` is found set. -/
def findsSignal : HalEvent → Bool
  | .op (.load .sensorSignal) signal => signal
  | _ => false

/-- A signal is handled: only `sensor_process_signal` sets the flag. -/
def handlesSignal : HalEvent → Bool
  | .op (.store .sensorSignal signal) _ => signal
  | _ => false

/-- `vfmCaptureReadData` -/
def readsImage : HalEvent → Bool
  | .op (.qseecomSendCmd req) _ => req.cmd == .vfmCaptureReadData
  | _ => false

/-- Before thread `t` reads an image it has found the flag set since it armed the sensor, and a
signal was handled between the two. -/
def SignalsFresh (t : Tid) (log : List (Tid × HalEvent)) : Prop :=
  ∀ e earlier, (t, e) :: earlier <:+ log → readsImage e = true →
    ∃ later f between a rest, earlier = later ++ (t, f) :: (between ++ (t, a) :: rest) ∧
      findsSignal f = true ∧ arms a = true ∧
      (∀ e', (t, e') ∈ later ++ between → arms e' = false) ∧
      ∃ te ∈ between, handlesSignal te.2 = true

/-- What a thread has seen since it armed the sensor. -/
inductive Seen
  | unarmed
  | armed
  | called
  deriving DecidableEq

/-- A thread as a capture goes: its test of `tz.state`, what it has seen of the flag, and whether a
test has failed since the sensor was armed. -/
structure Watch where
  test : Test
  seen : Seen
  stopped : Bool

/-- A thread after an event. -/
def Watch.after (x : Watch) (e : HalEvent) : Watch where
  test := x.test.after e
  seen := if arms e then .armed else if findsSignal e ∧ x.seen = .armed then .called else x.seen
  stopped := !arms e && (x.stopped || x.test.fails e)

/-- What a thread with these events has seen; the newest event comes first. -/
def watch : List HalEvent → Watch
  | [] => ⟨.out, .unarmed, false⟩
  | e :: es => (watch es).after e

/-- The condition on a step: the flag is clear when the sensor is armed, and a thread that was told
to stop since then is not told to go on. -/
def FreshStart (s : Hal) (t : Tid) (e : HalEvent) : Prop :=
  (arms e = true → s.mem.sensor.signal = false) ∧
    ((watch (s.own t)).stopped = true → (watch (s.own t)).test.passes e = false)

instance (s : Hal) (t : Tid) (e : HalEvent) : Decidable (FreshStart s t e) :=
  inferInstanceAs (Decidable (_ ∧ _))

/-! ## The protocol -/

/-- Which procedures a worker calls where; a thread has no test open elsewhere than in
`vcs_check_state`. -/
def watchCalls (x : Watch) : Call → Prop
  | .getTzState | .setTzState _ => True
  | .vcsCheckState => x.test = .first
  | .vcsStartCaptureWait => x.test = .out ∧ x.seen ≠ .unarmed ∧ x.stopped = false
  | .vcsStartCaptureRead => x.test = .out ∧ x.seen = .called
  | .vcsAuthenticate | .vcsAuthenticateLoop | .vcsEnroll | .vcsEnrollLoop _ _ => x.test = .out
  | .vcsStartCapture _ | .vcsUpdateCalData | .sensorCaptureStart => x.test = .out
  | .vcsGetEnrolledFingerNum | .sensorUninit | .vcsUninit | .vcsUpdateAuthToken => x.test = .out
  | .sendErrorNotice _ | .sendAcquiredNotice _ | .sendEnrollNotice _ _ => x.test = .out
  | .sendAuthenticatedNotice _ | .dbWriteToDb _ _ => x.test = .out
  | _ => False

/-- How a procedure may be left. -/
def watchLeaves (x : Watch) : (c : Call) → Ret c → Watch → Prop
  | .getTzState, state, y => y = x.after (.op (.load .tzState) state) ∧
    (x.stopped = true → x.test.passes (.op (.load .tzState) state) = false)
  | .setTzState state, _, y => y = x.after (.op (.store .tzState state) ())
  | .vcsCheckState, ret, y =>
    y = ⟨.out, x.seen, x.stopped || ret != 0⟩ ∧ (ret = 0 → x.stopped = false)
  | .vcsStartCaptureWait, _, y => y.test = .out ∧ (y.stopped = false → y.seen = .called)
  | .sensorCaptureStart, _, y => y = ⟨.out, .armed, false⟩
  | _, _, y => y.test = .out

/-- The protocol of the workers: an image is read only if the flag was found set. -/
@[simps] def watchProtocol : Protocol Resp Ret Watch where
  assume x e := x.stopped = true → x.test.passes e = false
  next x e := if readsImage e = true ∧ x.seen ≠ .called then none else some (x.after e)
  pre c x := watchCalls x c
  post c x r y := watchLeaves x c r y

section

variable {x y : Watch} {c : Call} {r : Ret c} {e : HalEvent}

/-- A call by its contract, behind its entry. -/
@[simp ↓] theorem callRule_watch (Q : Ret c → Watch → Prop) :
    watchProtocol.callRule fine c Q x ↔ watchCalls (x.after (.enter c)) c ∧
      ∀ r y, watchLeaves (x.after (.enter c)) c r y → Q r y := by
  simp [Protocol.callRule, fine, watchProtocol, readsImage, Test.passes]

/-- Operations that are not watched. -/
def unwatched : Op → Bool
  | .load .tzState | .store .tzState _ | .load .sensorSignal | .ioctl (.setDrdyInt _) => false
  | .qseecomSendCmd req => req.cmd != .vfmCaptureReadData
  | _ => true

/-- They change nothing. -/
@[simp ↓] theorem opRule_unwatched {o : Op} {Q : Resp o → Watch → Prop} (ho : unwatched o = true) :
    watchProtocol.opRule o Q x ↔ ∀ r, Q r x := by
  have hstage : ∀ r, x.after (.op o r) = x := by
    intro r
    obtain ⟨test, seen, stopped⟩ := x
    cases o with
    | load v => cases v <;> first | cases ho; done | simp [Watch.after, Test.after, Test.fails, arms,
        findsSignal]
    | store v a => cases v <;> first | cases ho; done | simp [Watch.after, Test.after, Test.fails,
        arms, findsSignal]
    | ioctl i => cases i <;> first | cases ho; done | simp [Watch.after, Test.after, Test.fails,
        arms, findsSignal]
    | _ => simp [Watch.after, Test.after, Test.fails, arms, findsSignal]
  have hread : ∀ r, readsImage (.op o r) = false := by
    intro r
    cases o <;> first | rfl | simpa [readsImage, unwatched] using ho
  have hpass : ∀ r, x.test.passes (.op o r) = false := by
    intro r
    cases o with
    | load v => cases v <;> first | cases ho; done | rfl
    | _ => rfl
  simp [Protocol.opRule, Protocol.Takes, hstage, hread, hpass]

end

section bodies

attribute [local simp ↓] load store op call send ionSbuffer sameIonSbuffer

attribute [local simp] watchCalls watchLeaves Watch.after Test.after Test.fails Test.passes arms
  findsSignal readsImage unwatched

/-- Reading the slots is not watched. -/
theorem watch_readsSlot {α : Type} {p : Code α} {Q : α → Watch → Prop} {x : Watch}
    (hp : p.Within Op.readsSlot fun _ => False) (hQ : ∀ a, Q a x) :
    watchProtocol.Follows fine p Q x := by
  refine .frame hp (fun o ho r => ?_) hQ
  cases o with
  | load v => cases v <;> first | cases ho; done | (cases x; simp)
  | _ => cases ho

/-- The test. -/
theorem watch_checkState (seen : Seen) (stopped : Bool) :
    watchProtocol.Follows fine vcsCheckState
      (watchLeaves ⟨.first, seen, stopped⟩ .vcsCheckState) ⟨.first, seen, stopped⟩ := by
  simp [vcsCheckState]
  intro state
  by_cases hidle : state = .stateIdle
  · simp [hidle]
  · simp +contextual [hidle]
    exact fun state hgo hne => Bool.eq_false_iff.mpr fun hstopped => hne (hgo hstopped)

/-- One capture. -/
theorem watch_startCapture (t : CInt) (seen : Seen) (stopped : Bool) :
    watchProtocol.Follows fine (vcsStartCapture t) (fun _ y => y.test = .out)
      ⟨.out, seen, stopped⟩ := by
  simp [vcsStartCapture]
  intro _ _ y hy
  refine ⟨hy, fun z _ hcalled ret hgo hzero => ?_⟩
  have hseen := hcalled (hgo hzero)
  simp +contextual [hseen]

/-- One round of the authentication. -/
theorem watch_authenticateLoop (seen : Seen) (stopped : Bool) :
    watchProtocol.Follows fine vcsAuthenticateLoop (fun _ y => y.test = .out)
      ⟨.out, seen, stopped⟩ := by
  simp +contextual [vcsAuthenticateLoop]
  intro _ _ _ _ now num y hy
  refine watch_readsSlot (matchTemplates_within ..) fun templates => ?_
  simp [hy]
  intro resp _ _
  exact watch_readsSlot (findMatched_within ..) fun _ => by simp

/-- One enrollment. -/
theorem watch_enroll (seen : Seen) (stopped : Bool) :
    watchProtocol.Follows fine vcsEnroll (fun _ y => y.test = .out) ⟨.out, seen, stopped⟩ := by
  refine .bind (follows_ionSbuffer (by simp) (by simp) ?_)
  refine .bind (watch_readsSlot (firstFreeSlot_within ..) fun _ => ?_)
  simp +contextual [vcsEnrollCommit, payloadBind, enrollmentPasswordSet]

/-- Every body keeps to the contracts. -/
theorem watchProtocol_valid : watchProtocol.Valid fine body := by
  rintro c _ ⟨test, seen, stopped⟩ hx
  cases c
  all_goals simp at hx
  case getTzState => simp [body, getTzState]
  case setTzState => simp [body, setTzState]
  case vcsCheckState =>
    subst hx
    exact watch_checkState seen stopped
  case vcsStartCaptureWait =>
    obtain ⟨rfl, hseen, rfl⟩ := hx
    simp +contextual [body, vcsStartCaptureWait, hseen]
    cases seen <;> simp at hseen ⊢
  case vcsStartCaptureRead =>
    obtain ⟨rfl, rfl⟩ := hx
    simp +contextual [body, vcsStartCaptureRead]
  case vcsGetEnrolledFingerNum =>
    exact watch_readsSlot (countFingers_within ..) fun num => hx
  all_goals subst hx
  case vcsStartCapture t _ => exact watch_startCapture t seen stopped
  case vcsAuthenticateLoop => exact watch_authenticateLoop seen stopped
  case vcsEnroll => exact watch_enroll seen stopped
  case vcsUpdateCalData => simp [body, vcsUpdateCalData]
  case vcsAuthenticate => simp [body, vcsAuthenticate]
  case vcsEnrollLoop => simp +contextual [body, vcsEnrollLoop]
  case vcsUpdateAuthToken => simp [body, vcsUpdateAuthToken, getAuthToken]
  case vcsUninit => simp [body, vcsUninit]
  case sensorUninit => simp [body, sensorUninit]
  case sensorCaptureStart => simp [body, sensorCaptureStart]
  case dbWriteToDb => simp [body, dbWriteToDb]
  case sendErrorNotice => simp [body, sendErrorNotice]
  case sendAcquiredNotice => simp [body, sendAcquiredNotice]
  case sendEnrollNotice => simp [body, sendEnrollNotice]
  case sendAuthenticatedNotice => simp [body, sendAuthenticatedNotice]

end bodies

/-! ## What a thread has seen -/

/-- The stage of the protocol is what its events show. -/
theorem watch_of_stage {es : List HalEvent} {y : Watch}
    (h : watchProtocol.stage ⟨.out, .unarmed, false⟩ es = some y) : y = watch es := by
  induction es generalizing y with
  | nil => simpa [Protocol.stage, watch] using h.symm
  | cons e es ih =>
    obtain ⟨x, hx, hy⟩ := Option.bind_eq_some_iff.mp h
    obtain rfl := ih hx
    simp only [watchProtocol_next] at hy
    split at hy <;> cases hy
    rfl

/-- A thread that has armed the sensor and has not found the flag set since. -/
theorem armed_split {es : List HalEvent} (h : (watch es).seen = .armed) :
    ∃ between a rest, es = between ++ a :: rest ∧ arms a = true ∧ ∀ e ∈ between, arms e = false := by
  induction es with
  | nil => cases h
  | cons e es ih =>
    by_cases he : arms e = true
    · exact ⟨[], e, es, rfl, he, by simp⟩
    · simp only [watch, Watch.after, he, if_false, Bool.false_eq_true] at h
      split at h
      · cases h
      · obtain ⟨between, a, rest, rfl, ha, hbetween⟩ := ih h
        exact ⟨e :: between, a, rest, rfl, ha,
          List.forall_mem_cons.mpr ⟨Bool.eq_false_iff.mpr he, hbetween⟩⟩

/-- A thread that has found the flag set since it armed the sensor. -/
theorem called_split {es : List HalEvent} (h : (watch es).seen = .called) :
    ∃ later f between a rest, es = later ++ f :: (between ++ a :: rest) ∧ findsSignal f = true ∧
      arms a = true ∧ ∀ e ∈ later ++ f :: between, arms e = false := by
  induction es with
  | nil => cases h
  | cons e es ih =>
    by_cases he : arms e = true
    · simp [watch, Watch.after, he] at h
    · have he' : arms e = false := Bool.eq_false_iff.mpr he
      simp only [watch, Watch.after, he, if_false, Bool.false_eq_true] at h
      split at h
      · rename_i hfinds
        obtain ⟨between, a, rest, rfl, ha, hbetween⟩ := armed_split hfinds.2
        exact ⟨[], e, between, a, rest, rfl, hfinds.1, ha,
          List.forall_mem_cons.mpr ⟨he', hbetween⟩⟩
      · obtain ⟨later, f, between, a, rest, rfl, hf, ha, hnone⟩ := ih h
        exact ⟨e :: later, f, between, a, rest, rfl, hf, ha,
          List.forall_mem_cons.mpr ⟨he', hnone⟩⟩

/-! ## What the flag was -/

/-- `sensor.signal` after the events of a log, from `signal` on. -/
def signalNow (signal : Bool) : List (Tid × HalEvent) → Bool
  | [] => signal
  | (_, .op o _) :: log => signalAfter (signalNow signal log) o
  | _ :: log => signalNow signal log

/-- The flag along the log of a run. -/
theorem signalNow_of_reaches {m : Mem} {arrives : Call → Bool} {ok : Hal → Tid → HalEvent → Prop}
    {s : Hal} (h : (Hal.idle m).Reaches fine arrives ok s) :
    s.mem.sensor.signal = signalNow m.sensor.signal s.log ∧
      ReadsNow .sensorSignal (signalNow m.sensor.signal) s.log := by
  refine along_of_reaches (v := .sensorSignal) (signalNow m.sensor.signal) rfl ?_ ?_ h
  · intro fin t ch o r m₁ m₂ log hact hsignal
    show m₂.sensor.signal = signalAfter (signalNow m.sensor.signal log) o
    rw [(act_captureEffect hact).signal, ← hsignal]
    rfl
  · exact fun _ _ _ => rfl

/-- Arming the sensor leaves the flag. -/
theorem signalNow_arms {signal : Bool} {t : Tid} {a : HalEvent} {log : List (Tid × HalEvent)}
    (ha : arms a = true) : signalNow signal ((t, a) :: log) = signalNow signal log := by
  unfold arms at ha
  split at ha
  · rfl
  · cases ha

/-- Without a signal a clear flag stays clear. -/
theorem signalNow_quiet {signal : Bool} {log : List (Tid × HalEvent)}
    (h : signalNow signal log = false) {later : List (Tid × HalEvent)}
    (hlater : ∀ te ∈ later, handlesSignal te.2 = false) :
    signalNow signal (later ++ log) = false := by
  induction later with
  | nil => exact h
  | cons te later ih =>
    obtain ⟨hte, hquiet⟩ := List.forall_mem_cons.mp hlater
    obtain ⟨t, e⟩ := te
    have hrest := ih hquiet
    cases e with
    | op o r =>
      show signalAfter (signalNow signal (later ++ log)) o = false
      unfold signalAfter
      split
      · exact hte
      · rfl
      · exact hrest
    | enter c => exact hrest
    | done c r => exact hrest

/-! ## Every run -/

/-- **No stale finger signal.** In every run, whatever threads it has, in which the flag is clear
whenever a thread arms the sensor and no thread that was told to stop is told to go on, every image
a worker reads was called for by a signal that was handled after the worker had armed the sensor. -/
theorem signalsFresh_of_reaches {m : Mem} {arrives : Call → Bool} {s : Hal} {t : Tid} {c : Call}
    (hc : imageWorker c = true) (ht : s.entry t = some c)
    (h : (Hal.idle m).Reaches fine arrives FreshStart s) : SignalsFresh t s.log := by
  have hstart : watchProtocol.Follows fine (.call c .ret) (fun _ _ => True)
      ⟨.out, .unarmed, false⟩ := by
    cases c <;> first | cases hc; done | simp [watchCalls, Watch.after, Test.after]
  obtain ⟨⟨d, p⟩, hp, rfl⟩ := Option.map_eq_some_iff.mp ht
  obtain ⟨y, hy, -⟩ := h.follows_stage watchProtocol_valid hstart
    (fun s t e y _ hy ho => watch_of_stage hy ▸ ho.2) (fun _ => rfl) rfl hp
  rintro e earlier ⟨newer, hlog⟩ he
  obtain ⟨x, z, hx, hz⟩ : ∃ x z, watchProtocol.stage ⟨.out, .unarmed, false⟩
      (eventsOf t earlier) = some x ∧ watchProtocol.next x e = some z := by
    have hsplit : watchProtocol.stage ⟨.out, .unarmed, false⟩
        (eventsOf t newer ++ e :: eventsOf t earlier) = some y := by
      rw [← hy, State.own, ← hlog]
      simp [eventsOf]
    exact Protocol.stage_split hsplit
  obtain rfl := watch_of_stage hx
  have hcalled : (watch (eventsOf t earlier)).seen = .called := by
    by_contra hne
    simp [he, hne] at hz
  obtain ⟨later, f, between, a, rest, hes, hf, ha, hnone⟩ := called_split hcalled
  obtain ⟨later', earlier', rfl, rfl, hearlier'⟩ := eventsOf_split hes
  obtain ⟨between', rest', rfl, rfl, rfl⟩ := eventsOf_split hearlier'
  have hlater : (t, f) :: (between' ++ (t, a) :: rest') <:+ s.log :=
    ⟨newer ++ (t, e) :: later', by simpa using hlog⟩
  refine ⟨later', f, between', a, rest', rfl, hf, ha, fun e' he' => hnone e' ?_, ?_⟩
  · have hmem : e' ∈ eventsOf t (later' ++ between') :=
      List.mem_filterMap.mpr ⟨(t, e'), he', if_pos rfl⟩
    rw [eventsOf, List.filterMap_append] at hmem
    obtain hmem | hmem := List.mem_append.mp hmem
    · exact List.mem_append_left _ hmem
    · exact List.mem_append_right _ (List.mem_cons_of_mem _ hmem)
  · by_contra hquiet
    have hclear : signalNow m.sensor.signal ((t, a) :: rest') = false := by
      have harms : (t, a) :: rest' <:+ s.log :=
        ((List.suffix_append between' _).trans (List.suffix_cons _ _)).trans hlater
      obtain ⟨s₁, s₂, h₁, rfl, ho, -⟩ := h.moment rfl harms
      rw [show signalNow m.sensor.signal ((t, a) :: s₁.log) = signalNow m.sensor.signal s₁.log from
        signalNow_arms ha, ← (signalNow_of_reaches h₁).1]
      exact ho.1 ha
    have hflag := signalNow_quiet hclear fun te hte =>
      Bool.eq_false_iff.mpr fun hhandles => hquiet ⟨te, hte, hhandles⟩
    unfold findsSignal at hf
    split at hf
    · rw [(signalNow_of_reaches h).2 t _ _ hlater, hflag] at hf
      cases hf
    · cases hf

/-- The steps of thread 1 up to the wait for the finger, without those before the capture. -/
def arming : List (Label hal) :=
  answer 1 (.good 0) ++ ticks 1 2 ++ answer 1 .lost ++ ticks 1 4

/-- The steps of thread 1 from the test of the flag to the image. -/
def reading : List (Label hal) := ticks 1 40 ++ answer 1 (.good 2)

set_option maxRecDepth 2000 in
/-- A finger is laid on while the worker waits. -/
theorem signalsFresh_of_touch :
    ∃ s, (Hal.idle scanningDevice).Reaches fine (fun _ => true) FreshStart s ∧
      (s.own 1).any readsImage = true ∧ SignalsFresh 1 s.log := by
  obtain ⟨s, hs, hentry, hreads⟩ : ∃ s, (Hal.idle scanningDevice).exec fine (fun _ => true)
      (fun s t e => decide (FreshStart s t e))
      (.arrive 1 .vcsAuthenticate :: ticks 1 2 ++ answer 1 (.good 0) ++ ticks 1 7 ++ arming ++
        .arrive 2 .sensorProcessSignal :: ticks 2 15 ++ reading) = some s ∧
      s.entry 1 = some .vcsAuthenticate ∧ (s.own 1).any readsImage = true := ⟨_, rfl, rfl, rfl⟩
  have hr := State.Reaches.refl.exec (fun _ _ _ h => of_decide_eq_true h) hs
  exact ⟨s, hr, hreads, signalsFresh_of_reaches rfl hentry hr⟩

/-- What happened since thread `t` armed the sensor. -/
def sinceArmed (t : Tid) (log : List (Tid × HalEvent)) : List (Tid × HalEvent) :=
  log.takeWhile fun te => !(te.1 == t && arms te.2)

/-- Finding the signal is not arming the sensor. -/
theorem not_arms_of_finds {f : HalEvent} (hf : findsSignal f = true) : arms f = false := by
  unfold findsSignal at hf
  split at hf
  · rfl
  · cases hf

/-- A signal that calls for an image has been handled since the sensor was armed. -/
theorem handled_of_fresh {t : Tid} {e : HalEvent} {log : List (Tid × HalEvent)}
    (he : readsImage e = true) (h : SignalsFresh t ((t, e) :: log)) :
    ∃ te ∈ sinceArmed t log, handlesSignal te.2 = true := by
  obtain ⟨later, f, between, a, rest, rfl, hf, -, hnone, te, hte, hhandles⟩ :=
    h e log (List.suffix_refl _) he
  refine ⟨te, ?_, hhandles⟩
  have hall : ∀ te ∈ later ++ (t, f) :: between, (!(te.1 == t && arms te.2)) = true := by
    rintro ⟨u, e'⟩ hu
    by_cases hut : u = t
    · subst hut
      obtain hu | hu := List.mem_append.mp hu
      · simp [hnone e' (List.mem_append_left _ hu)]
      · obtain hu | hu := List.mem_cons.mp hu
        · cases hu
          simp [not_arms_of_finds hf]
        · simp [hnone e' (List.mem_append_right _ hu)]
    · simp [hut]
  have hsince : sinceArmed t (later ++ (t, f) :: (between ++ (t, a) :: rest)) =
      later ++ (t, f) :: between ++ sinceArmed t ((t, a) :: rest) := by
    rw [← List.cons_append, ← List.append_assoc]
    exact List.takeWhile_append_of_pos hall
  rw [hsince]
  exact List.mem_append_left _ (List.mem_append_right _ (List.mem_cons_of_mem _ hte))

set_option maxRecDepth 2000 in
/-- A second signal is handled when the first has been taken; the next capture of the same worker
takes it for its own. -/
theorem stale_signal :
    ∃ s, (Hal.idle scanningDevice).Reaches fine (fun _ => true) (fun _ _ _ => True) s ∧
      s.entry 1 = some .vcsAuthenticate ∧ ¬ SignalsFresh 1 s.log := by
  obtain ⟨s, hs, hentry, e, log, hlog, he, hquiet⟩ : ∃ s,
      (Hal.idle scanningDevice).exec fine (fun _ => true) (fun _ _ _ => true)
        (.arrive 1 .vcsAuthenticate :: ticks 1 2 ++ answer 1 (.good 0) ++ ticks 1 7 ++ arming ++
          .arrive 2 .sensorProcessSignal :: ticks 2 15 ++ ticks 1 28 ++
          .arrive 3 .sensorProcessSignal :: ticks 3 15 ++ ticks 1 12 ++ answer 1 (.good 2) ++
          ticks 1 2 ++ answer 1 ⟨0, 5, fun _ => 0⟩ ++ ticks 1 7 ++ arming ++ reading) = some s ∧
      s.entry 1 = some .vcsAuthenticate ∧ ∃ e log, s.log = (1, e) :: log ∧ readsImage e = true ∧
      (sinceArmed 1 log).any (fun te => handlesSignal te.2) = false :=
    ⟨_, rfl, rfl, _, _, rfl, rfl, rfl⟩
  refine ⟨s, State.Reaches.refl.exec (fun _ _ _ _ => trivial) hs, hentry, fun hfresh => ?_⟩
  obtain ⟨te, hte, hhandles⟩ := handled_of_fresh he (hlog ▸ hfresh)
  rw [List.any_eq_false] at hquiet
  exact hquiet te hte hhandles

end KlteCommon.Analysis
