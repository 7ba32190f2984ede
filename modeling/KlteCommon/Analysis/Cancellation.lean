import KlteCommon.Analysis.Enrollment

/-!
# A cancelled enrollment

`vcs_enroll` leaves its image loop when TrustZone reports that the template is complete, when the
capture is cancelled, on an error, or when the test at the head of the loop does not find
`STATE_ENROLL`. The last way out goes on to the commit like the first.

The ladder: before the images are complete the stages forbid every write
(`Enrolling.early_next`), unless the head of the loop found another state; so, in every run in
which it finds `STATE_ENROLL`, nothing is committed before the images are complete
(`cancelledCommitsNothing`). A cancellation between two images is committed
(`cancelled_commit`).
-/

set_option autoImplicit false

namespace KlteCommon.Analysis

open KlteCommon.Computation KlteCommon.Fingerprint

/-! ## What is observed -/

/-- A reply to `vfmEnrollAddImage` that says that the template is complete. -/
def completes : HalEvent → Bool
  | .op (.qseecomSendCmd req) r =>
    decide (req.cmd = .vfmEnrollAddImage ∧ r.failed = false ∧ r.data 2 = 0x1)
  | _ => false

/-- Thread `w` has seen the images complete, or it has committed nothing and slots and rows are
what they were in `m`. -/
def CommitsComplete (m : Mem) (w : Tid) (s : Hal) : Prop :=
  (s.own w).any completes = true ∨
    (s.own w).any commits = false ∧ s.mem.tz.finger = m.tz.finger ∧ s.mem.db = m.db

/-- Whether the next step of thread `w` is the read of `tz.state` at the head of the image loop. -/
def atLoopHead (s : Hal) (w : Tid) : Bool :=
  match s.own w with
  | .op (.lock .tzLock) _ :: .enter .getTzState :: .enter (.vcsEnrollLoop _ _) :: _ => true
  | _ => false

/-- The condition on a step: the head of the image loop finds `STATE_ENROLL`. -/
def uninterrupted (w : Tid) (s : Hal) (t : Tid) : HalEvent → Bool
  | .op (.load .tzState) _ => t != w || !atLoopHead s w || s.mem.tz.state == .stateEnroll
  | _ => true

/-! ## The stages before the commit -/

namespace Enrolling

/-- Whether the images are not complete and the loop was not interrupted. -/
def early : Enrolling → Bool
  | .searching _ | .imaging _ .wanted | .looping _ | .testing _ | .reading _ => true
  | _ => false

/-- What the last events were, at the head of the loop. -/
def Follows : Enrolling → List HalEvent → Prop
  | .looping _, es => ∃ idx count es', es = .enter (.vcsEnrollLoop idx count) :: es'
  | .testing _, es =>
    ∃ idx count es', es = .enter .getTzState :: .enter (.vcsEnrollLoop idx count) :: es'
  | .reading _, es => ∃ idx count es', es =
      .op (.lock .tzLock) () :: .enter .getTzState :: .enter (.vcsEnrollLoop idx count) :: es'
  | _, _ => True

/-- Only a worker at the head of its loop has something to follow. -/
theorem follows_of_not_atHead {x : Enrolling} (hx : x.atHead = false) (es : List HalEvent) :
    x.Follows es := by
  cases x <;> trivial

/-- What is followed is followed in the next stage. -/
theorem Follows.next {x y : Enrolling} {e : HalEvent} {es : List HalEvent} (h : x.Follows es)
    (hy : x.next e = some y) : y.Follows (e :: es) := by
  cases hx : x.atHead with
  | true =>
    cases x with
    | looping idx =>
      obtain ⟨rfl, rfl⟩ := next_looping hy
      obtain ⟨i, count, es, rfl⟩ := h
      exact ⟨i, count, es, rfl⟩
    | testing idx =>
      obtain ⟨rfl, rfl⟩ := next_testing hy
      obtain ⟨i, count, es, rfl⟩ := h
      exact ⟨i, count, es, rfl⟩
    | reading idx =>
      obtain ⟨state, -, rfl⟩ := next_reading hy
      trivial
    | _ => cases hx
  | false =>
    cases e with
    | op o r =>
      rw [next_op hx] at hy
      exact follows_of_not_atHead (atHead_afterOp hx hy) _
    | enter c =>
      rw [next_enter hx] at hy
      obtain rfl | ⟨idx, i, count, rfl, -, rfl⟩ := afterEnter_some hy
      · exact follows_of_not_atHead hx _
      · exact ⟨i, count, es, rfl⟩
    | done c r => simp [next_done] at hy

/-- What an operation does before the images are complete. -/
theorem early_afterOp {x y : Enrolling} {o : Op} {r : Resp o} (hx : x.early = true)
    (hy : x.afterOp o r = some y) : (y.early = true ∧ o.quiet = true) ∨ completes (.op o r) = true := by
  cases o with
  | qseecomSendCmd req =>
    replace hy : x.afterSend req.cmd r = some y := hy
    unfold afterSend at hy
    split at hy
    case h_4 idx hcmd =>
      obtain rfl := by simpa using hy
      by_cases hr : r.failed = false ∧ r.data 2 = 0x1
      · exact .inr (decide_eq_true ⟨hcmd, hr⟩)
      · rw [if_neg hr]
        exact .inl ⟨rfl, rfl⟩
    case h_1 =>
      split at hy <;> cases hy
      exact .inl ⟨rfl, rfl⟩
    all_goals first | cases hx | (cases hy; try exact .inl ⟨hx, rfl⟩)
  | load v =>
    cases v with
    | fingerExist j =>
      replace hy : x.afterProbe j r = some y := hy
      unfold afterProbe at hy
      split at hy
      · split at hy
        · obtain rfl := by simpa using hy
          cases r <;> exact .inl ⟨rfl, rfl⟩
        · cases hy
      · cases hy
    | activeGid =>
      replace hy : x.afterGid r = some y := hy
      cases x <;> first | cases hx; done | cases hy
    | _ =>
      cases hy
      exact .inl ⟨hx, rfl⟩
  | store v a =>
    cases v with
    | fingerData j =>
      replace hy : x.afterData j a = some y := hy
      cases x <;> first | cases hx; done | cases hy
    | fingerPayload j =>
      replace hy : x.afterPayload j a = some y := hy
      cases x <;> first | cases hx; done | cases hy
    | fingerExist j =>
      replace hy : x.afterMark j a = some y := hy
      cases x <;> first | cases hx; done | cases hy
    | _ => first | cases hy; done | (cases hy; exact .inl ⟨hx, rfl⟩)
  | sqlInsert gid j bd bp =>
    replace hy : x.afterInsert gid j bd bp r = some y := hy
    cases x <;> first | cases hx; done | cases hy
  | _ => first | cases hy; done | (cases hy; exact .inl ⟨hx, rfl⟩)

/-- **One step** before the images are complete: they stay incomplete and the step is quiet, they
become complete, or the loop is interrupted. -/
theorem early_next {x y : Enrolling} {e : HalEvent} (hx : x.early = true)
    (hy : x.next e = some y) :
    (y.early = true ∧ quietEvent e = true) ∨ completes e = true ∨
      ∃ idx state, x = .reading idx ∧ e = .op (.load .tzState) state ∧ state ≠ .stateEnroll := by
  cases hhead : x.atHead with
  | true =>
    cases x with
    | looping idx =>
      obtain ⟨rfl, rfl⟩ := next_looping hy
      exact .inl ⟨rfl, rfl⟩
    | testing idx =>
      obtain ⟨rfl, rfl⟩ := next_testing hy
      exact .inl ⟨rfl, rfl⟩
    | reading idx =>
      obtain ⟨state, rfl, rfl⟩ := next_reading hy
      by_cases hstate : state = .stateEnroll
      · rw [if_pos hstate]
        exact .inl ⟨rfl, rfl⟩
      · exact .inr (.inr ⟨idx, state, rfl, rfl, hstate⟩)
    | _ => cases hhead
  | false =>
    cases e with
    | op o r =>
      rw [next_op hhead] at hy
      obtain ⟨hy, ho⟩ | hc := early_afterOp hx hy
      · exact .inl ⟨hy, ho⟩
      · exact .inr (.inl hc)
    | enter c =>
      rw [next_enter hhead] at hy
      obtain rfl | ⟨idx, i, count, rfl, -, rfl⟩ := afterEnter_some hy
      · exact .inl ⟨hx, rfl⟩
      · exact .inl ⟨rfl, rfl⟩
    | done c r => simp [next_done] at hy

end Enrolling

/-! ## Every run -/

/-- The invariant: the images are complete, or nothing is committed and the stage is early. -/
def EarlyOrComplete (m : Mem) (w : Tid) (s : Hal) (x : Enrolling) : Prop :=
  (s.own w).any completes = true ∨ x.early = true ∧ x.Follows (s.own w) ∧
    (s.own w).any commits = false ∧ s.mem.tz.finger = m.tz.finger ∧ s.mem.db = m.db

/-- **One step** of the worker. -/
theorem EarlyOrComplete.worker {m : Mem} {w : Tid} {s s' : Hal} {x y : Enrolling} {e : HalEvent}
    (h : EarlyOrComplete m w s x) (hok : uninterrupted w s w e) (hr : s.Runs fine w e s')
    (hy : x.next e = some y) : EarlyOrComplete m w s' y := by
  unfold EarlyOrComplete
  rw [hr.own, if_pos rfl, List.any_cons, List.any_cons]
  obtain hdone | ⟨hearly, hfollows, hcommits, hfinger, hdb⟩ := h
  · exact .inl (by simp [hdone])
  obtain ⟨hy', hq⟩ | hc | ⟨idx, state, rfl, rfl, hstate⟩ := Enrolling.early_next hearly hy
  · obtain ⟨hfinger', hdb', -⟩ := mem_of_quiet hr hq
    refine .inr ⟨hy', hfollows.next hy, ?_, hfinger'.trans hfinger, hdb'.trans hdb⟩
    simp [not_commits_of_quiet hq, hcommits]
  · exact .inl (by simp [hc])
  · have hhead : atLoopHead s w = true := by
      obtain ⟨i, count, es, hes⟩ := hfollows
      simp [atLoopHead, hes]
    have hstate' : s.mem.tz.state = .stateEnroll := by simpa [uninterrupted, hhead] using hok
    exact absurd ((load_of_runs hr).trans hstate') hstate

/-- **One step** of another thread. -/
theorem EarlyOrComplete.other {m : Mem} {w t : Tid} {s s' : Hal} {x : Enrolling} {e : HalEvent}
    (h : EarlyOrComplete m w s x) (htw : t ≠ w) (hr : s.Runs fine t e s')
    (hq : quietEvent e = true) : EarlyOrComplete m w s' x := by
  obtain ⟨hfinger, hdb, -⟩ := mem_of_quiet hr hq
  unfold EarlyOrComplete
  rwa [hr.own, if_neg htw.symm, hfinger, hdb]

/-- The threads beside the worker: those that cancel it and the signal handler. -/
def cancellers : Call → Bool
  | .fingerprintCancel | .vcsTimeout | .sensorProcessSignal => true
  | _ => false

/-- **A cancelled enrollment commits nothing.** As long as the head of the image loop finds
`STATE_ENROLL`, nothing is committed before TrustZone has reported that the images are complete. -/
theorem cancelledCommitsNothing {m : Mem} {w : Tid} {s : Hal}
    (h : ((Hal.idle m).add w .vcsEnroll).Reaches fine cancellers (uninterrupted w · · ·) s) :
    CommitsComplete m w s := by
  have hcancellers : ∀ c, cancellers c = true → bystander c = true := by
    intro c hc
    cases c <;> first | rfl | cases hc
  obtain ⟨x, p, -, -, hI⟩ := enroll_invariant (I := EarlyOrComplete m w) hcancellers (.inr ⟨rfl, trivial, rfl, rfl, rfl⟩)
    (fun s t c x hI _ => hI) (fun s e s' x y hI hok hr hy => hI.worker hok hr hy)
    (fun s t e s' x hI htw hr hq => hI.other htw hr hq) h
  exact hI.imp_right fun h => h.2.2

/-- `fingerprint_cancel` up to its signal. -/
def cancelling (t : Tid) : List (Label hal) := .arrive t .fingerprintCancel :: ticks t 14

/-- The worker is cancelled while it waits for the finger: it ends with nothing committed. -/
theorem cancelledCommitsNothing_waiting :
    ∃ s, ((Hal.idle enrollingDevice).add 1 .vcsEnroll).Reaches fine cancellers
      (uninterrupted 1 · · ·) s ∧ s.fin 1 = true ∧ CommitsComplete enrollingDevice 1 s := by
  obtain ⟨s, hs, hfin⟩ : ∃ s, ((Hal.idle enrollingDevice).add 1 .vcsEnroll).exec fine cancellers
      (uninterrupted 1) (ticks 1 3 ++ answer 1 (.good 0) ++ answer 1 (.good 0) ++ ticks 1 7 ++
        answer 1 (.good 0) ++ ticks 1 2 ++ answer 1 .lost ++ ticks 1 6 ++ cancelling 2 ++
        ticks 1 10 ++ answer 1 (.good 0) ++ ticks 1 20 ++ answer 1 (.good 0) ++ ticks 1 7) =
          some s ∧
      s.fin 1 = true := ⟨_, rfl, rfl⟩
  have hr := State.Reaches.refl.exec (fun _ _ _ h => h) hs
  exact ⟨s, hr, hfin, cancelledCommitsNothing hr⟩

/-- The worker is cancelled before it tests `tz.state`: it has no image, and it commits. -/
theorem cancelled_commit :
    ∃ s, ((Hal.idle enrollingDevice).add 1 .vcsEnroll).Reaches fine cancellers
      (fun _ _ _ => True) s ∧ ¬ CommitsComplete enrollingDevice 1 s := by
  obtain ⟨s, hs, hcomplete, hcommits⟩ : ∃ s,
      ((Hal.idle enrollingDevice).add 1 .vcsEnroll).exec fine cancellers (fun _ _ _ => true)
        (cancelling 2 ++ ticks 1 3 ++ answer 1 (.good 0) ++ answer 1 (.good 0) ++ ticks 1 7 ++
          answer 1 (.good 0) ++ ticks 1 1 ++ answer 1 (.good 0) ++ answer 1 (.good 0) ++
          ticks 1 7 ++ [.run 1 [.num 101]]) = some s ∧
      (s.own 1).any completes = false ∧ (s.own 1).any commits = true := ⟨_, rfl, rfl, rfl⟩
  refine ⟨s, State.Reaches.refl.exec (fun _ _ _ _ => trivial) hs, ?_⟩
  rintro (h | ⟨h, -⟩)
  · simp [hcomplete] at h
  · simp [hcommits] at h

end KlteCommon.Analysis
