import KlteCommon.Computation.Paths
import KlteCommon.Fingerprint.Effects

/-!
# What `vcs_init` reports

`vcs_init` starts the app, raises the bandwidth, notes that the app is up and then lets
`vcs_resume` send three or four commands. Each command fails on one of two channels, the
transport's return value and the result word, and each return statement looks at one of them.

The ladder: what a call has done so far is a fold of its events (`Startup`); every body keeps to
the protocol of these folds (`startupProtocol_valid`); so the result is the truth, and a failed
call leaves nothing behind, exactly when the app does not start or nothing fails behind its start
(`reportsTruth_iff`). When the first command is lost, the call fails with the app up, and the next
one succeeds without doing anything (`lost_command`).
-/

set_option autoImplicit false

namespace KlteCommon.Analysis

open KlteCommon.Computation KlteCommon.Fingerprint

/-! ## What is observed -/

/-- Whether the app is up after an event: it was started and not shut down since. -/
def upAfter (up : Bool) : HalEvent → Bool
  | .op .qseecomStartApp r => r == 0 || up
  | .op .qseecomShutdownApp _ => false
  | _ => up

/-- Whether a call has started the app and not shut it down again. -/
def appUp (es : List HalEvent) : Bool := es.foldl upAfter false

/-- The app does not start. -/
def refusesStart : HalEvent → Bool
  | .op .qseecomStartApp r => r != 0
  | _ => false

/-- The bandwidth is raised. -/
def raises : HalEvent → Bool
  | .op (.qseecomSetBandwidth high) r => high && r == 0
  | _ => false

/-- A command with its answer. -/
def answered : HalEvent → Option ((CmdId × VendorCmdId) × Reply)
  | .op (.qseecomSendCmd req) r => some ((req.cmd, req.vendorCmd), r)
  | _ => none

/-- Transport and result are 0 in every answer. -/
def AllGood (answers : List ((CmdId × VendorCmdId) × Reply)) : Prop :=
  ∀ a ∈ answers, a.2.ret = 0 ∧ a.2.result = 0

/-- The commands that bring the app up, when a session is open or not. -/
def startupCommands (session : Bool) : List (CmdId × VendorCmdId) :=
  (.vfmInitialize, .vendorUnknown0) ::
    (if session then [(.vfmVendorDefinedOperation, .vendorEnterAuthSession)] else []) ++
    [(.vfmDeviceInitialize, .vendorUnknown0), (.vfmDeviceCalibrate, .vendorUnknown0)]

/-- Success is reported only when the app is up and all its commands were sent and went well;
after a failure the app is neither noted to be up nor left running. -/
structure ReportsTruth (m : Mem) (es : List HalEvent) (r : CInt) (m' : Mem) : Prop where
  success : r = 0 → appUp es = true ∧ AllGood (es.filterMap answered) ∧
    (es.filterMap answered).map Prod.fst = startupCommands m.tz.authSessionOpend
  failure : r ≠ 0 → m'.tz.init = false ∧ appUp es = false

/-! ## The protocol -/

/-- What a call has done: whether the app is up, has refused to start and the bandwidth is raised,
the answers to its commands, `tz.init` and whether a session is open. -/
structure Startup where
  up : Bool
  refused : Bool
  raised : Bool
  answers : List ((CmdId × VendorCmdId) × Reply)
  init : Bool
  session : Bool

/-- A call that has done nothing. -/
def Startup.none (session : Bool) : Startup := ⟨false, false, false, [], false, session⟩

/-- One event. -/
def Startup.after (x : Startup) : HalEvent → Startup
  | .op o r =>
    { up := upAfter x.up (.op o r)
      refused := x.refused || refusesStart (.op o r)
      raised := x.raised || raises (.op o r)
      answers := x.answers ++ (answered (.op o r)).toList
      init := initAfter x.init o
      session := sessionAfter x.session o }
  | _ => x

/-- The procedures that take part. -/
def startupCalls (x : Startup) : Call → Prop
  | .vcsInit => x = .none x.session
  | .vcsResume => x.answers = []
  | _ => False

/-- How a finished call reports what it has done. -/
structure Reported (session : Bool) (r : CInt) (y : Startup) : Prop where
  raised : r = 0 → y.raised = true
  good : y.raised = true → AllGood y.answers →
    r = 0 ∧ y.answers.map Prod.fst = startupCommands session
  down : y.up = false → r ≠ 0 ∧ y.init = false
  refused : y.refused = !y.up

/-- What they leave. -/
def startupLeaves (x : Startup) : (c : Call) → Ret c → Startup → Prop
  | .vcsInit, r, y => Reported x.session r y
  | .vcsResume, r, y => ∃ answers, y = { x with answers } ∧
    (AllGood answers → r = 0 ∧ answers.map Prod.fst = startupCommands x.session)
  | _, _, _ => False

/-- What the reads return. -/
def startupReads (x : Startup) : HalEvent → Prop
  | .op (.load .tzInit) r => r = x.init
  | .op (.load .authSessionOpend) r => r = x.session
  | _ => True

/-- The protocol of `vcs_init`. -/
@[simps] def startupProtocol : Protocol Resp Ret Startup where
  assume x e := startupReads x e
  next x e := some (x.after e)
  pre c x := startupCalls x c
  post c x r y := startupLeaves x c r y

section

variable (x y : Startup) (c : Call) (r : Ret c) (o : Op) (a : Resp o)
  (e : HalEvent)

/-- A call by its contract. -/
@[simp ↓] theorem callRule_startup (Q : Ret c → Startup → Prop) :
    startupProtocol.callRule fine c Q x ↔
      startupCalls x c ∧ ∀ r y, startupLeaves x c r y → Q r y :=
  Protocol.callRule_entered rfl trivial rfl

end

section bodies

attribute [local simp ↓] load store op call send ionSbuffer sameIonSbuffer

attribute [local simp] startupCalls startupLeaves Startup.after startupReads upAfter refusesStart
  raises answered initAfter sessionAfter

/-- No commands, none that failed. -/
@[simp] theorem allGood_nil : AllGood [] := nofun

/-- An answer is good if it did not fail. -/
@[simp] theorem allGood_cons {a : (CmdId × VendorCmdId) × Reply}
    {answers : List ((CmdId × VendorCmdId) × Reply)} :
    AllGood (a :: answers) ↔ a.2.failed = false ∧ AllGood answers := by
  simp [AllGood, Reply.failed]

/-- The commands of two parts of a run. -/
@[simp] theorem allGood_append {xs ys : List ((CmdId × VendorCmdId) × Reply)} :
    AllGood (xs ++ ys) ↔ AllGood xs ∧ AllGood ys := List.forall_mem_append

/-- The end of `vcs_resume`, behind the answers to the first commands. -/
theorem startup_deviceResume (x : Startup)
    (hx : x.answers.map Prod.fst ++
      [(.vfmDeviceInitialize, .vendorUnknown0), (.vfmDeviceCalibrate, .vendorUnknown0)] =
        startupCommands x.session) :
    startupProtocol.Follows fine deviceResume
      (fun r y => startupLeaves x .vcsResume r y) x := by
  simp [deviceResume]
  intro r
  refine ⟨fun hfailed _ hgood => by simp [hfailed] at hgood, fun _ _ _ r' => ?_⟩
  refine ⟨fun hfailed _ _ hgood => by simp [hfailed] at hgood, fun hgood _ _ _ => ⟨?_, hx⟩⟩
  simp [Reply.failed] at hgood
  exact hgood.1

/-- Every body keeps to the contracts. -/
theorem startupProtocol_valid : startupProtocol.Valid fine body := by
  intro c _ x hx
  cases c
  all_goals simp at hx
  case vcsInit =>
    rw [hx]
    simp [body, vcsInit, Startup.none]
    intro r
    refine ⟨?_, fun hr => ⟨by simp, nofun, fun _ => ⟨by simp, rfl⟩, by simp [bne]⟩⟩
    rintro rfl raised
    refine ⟨?_, fun hr => ⟨by simp, by simp [hr], by simp, by simp⟩⟩
    rintro rfl r _ answers rfl hgood
    exact ⟨fun _ => rfl, fun _ => hgood, by simp, by simp⟩
  case vcsResume =>
    simp [body, vcsResume, hx]
    intro r
    refine ⟨fun hfailed hgood => by simp [hfailed] at hgood, fun _ => ⟨?_, ?_⟩⟩
    · intro hsession token r'
      refine ⟨fun hfailed _ hgood => by simp [hfailed] at hgood, fun _ => ?_⟩
      refine (startup_deviceResume _ (by simp [startupCommands, hsession])).mono ?_
      rintro r y ⟨answers, rfl, hgood⟩
      exact ⟨_, rfl, hgood⟩
    · intro hsession
      refine (startup_deviceResume _ (by simp [startupCommands, hsession])).mono ?_
      rintro r y ⟨answers, rfl, hgood⟩
      exact ⟨_, rfl, hgood⟩

end bodies

/-! ## Every call -/

/-- The memory is where the stage says. -/
structure Starts (x : Startup) (m : Mem) : Prop where
  init : m.tz.init = x.init
  session : m.tz.authSessionOpend = x.session

/-- A step that is taken alone finds what the stage says, and does what it says. -/
theorem starts_act {fin : Tid → Bool} {t : Tid} {ch : Choice} {m m' : Mem} {x : Startup} {o : Op}
    {r : Resp o} (h : Starts x m) (hact : act fin t o ch m = some (r, m')) :
    startupReads x (.op o r) ∧
      ∀ y, startupProtocol.next x (.op o r) = some y → Starts y m' := by
  have heff := act_effect hact
  have hsession := (act_sessionEffect hact).opend
  refine ⟨?_, ?_⟩
  · cases o with
    | load v =>
      obtain ⟨rfl, -⟩ := by simpa [act] using hact
      cases v <;> first | trivial | exact h.init | exact h.session
    | _ => trivial
  · rintro _ ⟨⟩
    exact ⟨heff.init.trans (h.init ▸ rfl), hsession.trans (h.session ▸ rfl)⟩

/-- The stage of the protocol is the fold of the events. -/
theorem startup_of_stage {es : List HalEvent} {x y : Startup}
    (h : startupProtocol.stage x es.reverse = some y) :
    y.up = es.foldl upAfter x.up ∧ y.refused = (x.refused || es.any refusesStart) ∧
      y.raised = (x.raised || es.any raises) ∧ y.answers = x.answers ++ es.filterMap answered := by
  induction es generalizing x with
  | nil =>
    obtain rfl : x = y := by simpa [Protocol.stage] using h
    simp
  | cons e es ih =>
    rw [List.reverse_cons, Protocol.stage_concat rfl] at h
    obtain ⟨hup, hrefused, hraised, hanswers⟩ := ih h
    have hafter : (x.after e).up = upAfter x.up e ∧
        (x.after e).refused = (x.refused || refusesStart e) ∧
        (x.after e).raised = (x.raised || raises e) ∧
        (x.after e).answers = x.answers ++ (answered e).toList := by
      cases e <;> simp [Startup.after, upAfter, refusesStart, raises, answered]
    refine ⟨?_, ?_, ?_, ?_⟩
    · rw [hup, hafter.1, List.foldl_cons]
    · rw [hrefused, hafter.2.1, List.any_cons, Bool.or_assoc]
    · rw [hraised, hafter.2.2.1, List.any_cons, Bool.or_assoc]
    · rw [hanswers, hafter.2.2.2, List.append_assoc, List.filterMap_cons]
      cases answered e <;> rfl

/-- **The result of `vcs_init` is the truth**, and a failed call undoes itself, exactly when the app
does not start or nothing fails once it has. -/
theorem reportsTruth_iff {m m' : Mem} {fin : Tid → Bool} {t : Tid} {chs : List Choice}
    {es : List HalEvent} {r : CInt} (hinit : m.tz.init = false)
    (h : hal.solo fin t chs vcsInit m = some (es, .ret r, m')) :
    ReportsTruth m es r m' ↔
      es.any refusesStart = true ∨ es.any raises = true ∧ AllGood (es.filterMap answered) := by
  have hp := startupProtocol_valid .vcsInit rfl (.none m.tz.authSessionOpend) rfl
  obtain ⟨y, hy, hreported, hm'⟩ := hp.alone (J := Starts) (X := fun _ => True) (fun _ => rfl)
    startupProtocol_valid (fun x m o ch r m' hm hact _ => starts_act hm hact)
    (fun x m c hm => ⟨trivial, fun y hy => by cases hy; exact hm⟩) ⟨hinit, rfl⟩
    (fun _ _ => trivial) h
  obtain ⟨hup, hrefused, hraised, hanswers⟩ := startup_of_stage hy
  simp only [Startup.none, Bool.false_or, List.nil_append] at hup hrefused hraised hanswers
  change y.up = appUp es at hup
  have hdown : y.up = false ↔ es.any refusesStart = true := by
    rw [← hrefused, hreported.refused, Bool.not_eq_true']
  rw [← hdown, ← hraised, ← hanswers]
  constructor
  · intro htruth
    by_cases hr : r = 0
    · have hall := (htruth.success hr).2.1
      exact .inr ⟨hreported.raised hr, hanswers ▸ hall⟩
    · exact .inl (hup.trans (htruth.failure hr).2)
  · rintro (hdown | ⟨hpower, hall⟩)
    · obtain ⟨hr, hy⟩ := hreported.down hdown
      exact ⟨fun h => absurd h hr, fun _ => ⟨hm'.init.trans hy, hup ▸ hdown⟩⟩
    · obtain ⟨hr, hcommands⟩ := hreported.good hpower hall
      refine ⟨fun _ => ⟨?_, hanswers ▸ hall, hanswers ▸ hcommands⟩, fun h => absurd hr h⟩
      by_contra hdown
      exact (hreported.down (hup.trans (Bool.not_eq_true _ ▸ hdown))).1 hr

/-- The choices of a `vcs_init` whose first command is answered by `r`. -/
def firstAnswer (r : Reply) : List Choice := List.replicate 6 .tick ++ [.reply r]

/-- Every command is answered well: the report is true. -/
theorem reportsTruth_good : ∃ es m', hal.solo (fun _ => false) 1
    (firstAnswer (.good 0) ++ [.tick, .reply (.good 0), .tick, .tick, .reply (.good 0)] ++
      List.replicate 4 .tick) vcsInit .zero = some (es, .ret 0, m') ∧
    ReportsTruth .zero es 0 m' := by
  obtain ⟨es, m', h, hraised, hanswers⟩ : ∃ es m', hal.solo (fun _ => false) 1
      (firstAnswer (.good 0) ++ [.tick, .reply (.good 0), .tick, .tick, .reply (.good 0)] ++
        List.replicate 4 .tick) vcsInit .zero = some (es, .ret 0, m') ∧
      es.any raises = true ∧ (es.filterMap answered).map Prod.snd = List.replicate 3 (.good 0) :=
    ⟨_, _, rfl, rfl, rfl⟩
  refine ⟨es, m', h, (reportsTruth_iff rfl h).mpr (.inr ⟨hraised, fun a ha => ?_⟩)⟩
  have hgood := List.eq_of_mem_replicate (hanswers ▸ List.mem_map_of_mem ha)
  rw [hgood]
  exact ⟨rfl, rfl⟩

/-- **A lost command.** The transport fails for `vfmInitialize`: the call fails with the app
running and noted to be up, and the next call succeeds without a single command. -/
theorem lost_command : ∃ es m', hal.solo (fun _ => false) 1 (firstAnswer .lost) vcsInit .zero =
      some (es, .ret (-1), m') ∧ ¬ ReportsTruth .zero es (-1) m' ∧ m'.tz.init = true ∧
    ∃ es', hal.solo (fun _ => false) 1 [.tick] vcsInit m' = some (es', .ret 0, m') ∧
      es'.filterMap answered = [] := by
  obtain ⟨es, m', h, hinit, es', h', hnone⟩ : ∃ es m', hal.solo (fun _ => false) 1
      (firstAnswer .lost) vcsInit .zero = some (es, .ret (-1), m') ∧ m'.tz.init = true ∧
      ∃ es', hal.solo (fun _ => false) 1 [.tick] vcsInit m' = some (es', .ret 0, m') ∧
        es'.filterMap answered = [] := ⟨_, _, rfl, rfl, _, rfl, rfl⟩
  refine ⟨es, m', h, fun htruth => ?_, hinit, es', h', hnone⟩
  exact absurd (htruth.failure (by decide)).1 (by simp [hinit])

/-- **A refused command.** `vfmInitialize` arrives and is answered by an error: the call succeeds,
and no other command is sent. -/
theorem refused_command : ∃ es m', hal.solo (fun _ => false) 1 (firstAnswer ⟨0, 1, fun _ => 0⟩)
      vcsInit .zero = some (es, .ret 0, m') ∧ ¬ ReportsTruth .zero es 0 m' ∧
    (es.filterMap answered).length = 1 := by
  obtain ⟨es, m', h, hlength⟩ : ∃ es m', hal.solo (fun _ => false) 1
      (firstAnswer ⟨0, 1, fun _ => 0⟩) vcsInit .zero = some (es, .ret 0, m') ∧
      (es.filterMap answered).length = 1 := ⟨_, _, rfl, rfl⟩
  refine ⟨es, m', h, fun htruth => ?_, hlength⟩
  have hcommands := congrArg List.length (htruth.success rfl).2.2
  rw [List.length_map, hlength] at hcommands
  exact absurd hcommands (by decide)

end KlteCommon.Analysis
