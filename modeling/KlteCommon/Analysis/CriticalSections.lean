import KlteCommon.Analysis.LockOrder
import KlteCommon.Computation.Ending

/-!
# Critical sections end

Whoever holds a mutex gives it up after finitely many steps of its own, whatever the outside
answers; only `fingerprint_enroll` without a free slot gets to taking `vdev->lock` again instead.
Nothing that polls for another thread is done in a critical section, so none of them waits for
anything but a mutex of a higher rank.

The ladder: the procedures that do not poll end (`prompt_ends`), the wait for the finger gives
`sensor.lock` up (`captureWait_ends`), and these are all that is called with a mutex held
(`prompt_of_ordered`). So a critical section ends (`critical_section_ends`), and so does every entry
point but `fingerprint_cancel` and `fingerprint_close`, which wait for the worker
(`entry_point_ends`).
-/

set_option autoImplicit false

namespace KlteCommon.Analysis

open KlteCommon.Computation KlteCommon.Fingerprint

/-! ## Procedures that do not poll -/

/-- The procedures that do not wait for what another thread, the finger or the app is to do. -/
def prompt : Call → Bool
  | .vcsStartCapture _ | .vcsStartCaptureWait | .vcsStartCaptureRead => false
  | .vcsAuthenticate | .vcsAuthenticateLoop | .vcsEnroll | .vcsEnrollLoop _ _ => false
  | .vcsTimeout | .vcsTimeoutLoop => false
  | .fingerprintCancel | .fingerprintCancelLoop | .fingerprintClose => false
  | _ => true

/-- How deep the calls of a procedure may be nested. -/
def depth : Call → ℕ
  | .vcsCheckState | .vcsUninit | .vcsInit | .sendAuthenticatedNotice _ => 1
  | .dbConvertOldDb | .sensorProcessSignal => 1
  | .vcsStartAuthenticate | .vcsStartEnroll _ | .dbReadToTz => 2
  | .dbInit | .fingerprintRemove _ | .fingerprintEnumerate => 3
  | .fingerprintSetActiveGroup _ | .fingerprintAuthenticate _ | .fingerprintEnroll _ _ => 3
  | .fingerprintOpen => 4
  | _ => 0

/-- The protocol of a thread that never sleeps and calls only procedures in `B`. -/
def awakeProtocol (B : Call → Prop) : Protocol Resp Ret Unit where
  assume _ _ := True
  next _
    | .op o _ => if asleep o then none else some ()
    | _ => some ()
  pre c _ := B c
  post _ _ _ _ := True

/-- That of a body of depth `n`. -/
abbrev promptProtocol (n : ℕ) : Protocol Resp Ret Unit :=
  awakeProtocol fun c => prompt c = true ∧ depth c < n

section

variable {B : Call → Prop}

/-- Nothing is assumed. -/
@[simp] theorem awakeProtocol_assume (e : HalEvent) : (awakeProtocol B).assume () e := trivial

/-- Everything but sleeping is allowed. -/
@[simp] theorem awakeProtocol_next (o : Op) (r : Resp o) :
    (awakeProtocol B).next () (.op o r) = if asleep o then none else some () := rfl

/-- A call that is allowed may return anything. -/
@[simp ↓] theorem callRule_awake {c : Call} {Q : Ret c → Unit → Prop} :
    (awakeProtocol B).callRule fine c Q () ↔ B c ∧ ∀ r, Q r () := by
  simp only [Protocol.callRule, awakeProtocol, fine, Protocol.Takes]
  exact ⟨fun h => ⟨(h trivial).1, fun r => (h trivial).2 r () trivial⟩,
    fun h _ => ⟨h.1, fun r _ _ => h.2 r⟩⟩

end

section bodies

attribute [local simp ↓] load store op call send ionSbuffer sameIonSbuffer

attribute [local simp] prompt depth asleep

variable {n : ℕ} {α : Type} {p : Code α} {Q : α → Unit → Prop}

/-- Code that only reads the slots is prompt. -/
theorem prompt_of_readsSlot (hp : p.Within Op.readsSlot fun _ => False) (hQ : ∀ a, Q a ()) :
    (promptProtocol n).Follows fine p Q () := by
  refine .frame hp (fun o ho r => ?_) hQ
  cases o <;> first | rfl | cases ho

/-- So is code that only fills one. -/
theorem prompt_of_fillsSlot (hp : p.Within Op.fillsSlot fun _ => False) (hQ : ∀ a, Q a ()) :
    (promptProtocol n).Follows fine p Q () := by
  refine .frame hp (fun o ho r => ?_) hQ
  cases o <;> first | rfl | cases ho

section

variable {Q : Unit → Unit → Prop} {Qi : ℤ → Unit → Prop}

/-- Clearing the slots is prompt. -/
@[simp ↓] theorem prompt_clearFingers (k : ℕ) (idx : ℤ) :
    (promptProtocol n).Follows fine (clearFingers k idx) Q () ↔ Q () () := by
  induction k generalizing idx with
  | zero => simp [clearFingers]
  | succ k ih => simp [clearFingers, ih]

/-- So is reading the rows of a table. -/
@[simp ↓] theorem prompt_readRows (rows : List Row) (hQ : ∀ a, Q a ()) :
    (promptProtocol n).Follows fine (readRows rows) Q () :=
  prompt_of_fillsSlot (readRows_within ..) hQ

/-- So is reading Samsung's enrollments. -/
@[simp ↓] theorem prompt_readEnrollments (rows : List (ℤ × List UInt8)) (hQ : ∀ a, Q a ()) :
    (promptProtocol n).Follows fine (readEnrollments rows) Q () :=
  prompt_of_fillsSlot (readEnrollments_within ..) hQ

/-- So is the search for a free slot. -/
@[simp ↓] theorem prompt_firstFreeSlot (k : ℕ) (idx : ℤ) (hQ : ∀ a, Qi a ()) :
    (promptProtocol n).Follows fine (firstFreeSlot k idx) Qi () :=
  prompt_of_readsSlot (firstFreeSlot_within ..) hQ

/-- So is writing what was read. -/
@[simp ↓] theorem prompt_writeEnrollments (payload : List UInt8) (k : ℕ) (idx : ℤ)
    (hn : 0 < n) (hQ : Q () ()) :
    (promptProtocol n).Follows fine (writeEnrollments payload k idx) Q () := by
  induction k generalizing idx with
  | zero => simp [writeEnrollments, hQ]
  | succ k ih => simp [writeEnrollments, hn, ih]

end

/-- So is the removal of all fingers. -/
theorem prompt_removeFingers {Q : CInt → Unit → Prop} (k : ℕ) (idx : ℤ) (ret : CInt)
    (hn : 0 < n) (hQ : ∀ a, Q a ()) :
    (promptProtocol n).Follows fine (removeFingers k idx ret) Q () := by
  induction k generalizing idx ret with
  | zero => simp [removeFingers, hQ]
  | succ k ih => simp [removeFingers, hn, ih]

/-- Every body that does not poll calls only what does not poll, and less deep. -/
theorem prompt_body (c : Call) (hc : prompt c = true) :
    (promptProtocol (depth c)).Follows fine (body c) (fun _ _ => True) () := by
  cases c
  all_goals first | cases hc; done | skip
  case getTzState => simp [body, getTzState]
  case setTzState => simp [body, setTzState]
  case vcsUpdateCalData => simp [body, vcsUpdateCalData]
  case vcsCheckState => simp [body, vcsCheckState]
  case vcsStartAuthenticate =>
    simp [body, vcsStartAuthenticate, awaitIdle]
    rintro _ _ _ _ (_ | _) <;> simp
  case vcsStartEnroll =>
    simp [body, vcsStartEnroll]
    rintro (_ | _) <;> simp
    rintro - (_ | _) <;> simp
  case vcsGetEnrolledFingerNum =>
    exact prompt_of_readsSlot (countFingers_within ..) fun _ => trivial
  case vcsUpdateAuthToken => simp [body, vcsUpdateAuthToken, getAuthToken]
  case vcsStartAuthSession => simp [body, vcsStartAuthSession]
  case vcsStopAuthSession => simp [body, vcsStopAuthSession]
  case vcsResume => simp [body, vcsResume, deviceResume]
  case vcsUninit => simp [body, vcsUninit]
  case vcsInit => simp [body, vcsInit]
  case sensorUninit => simp [body, sensorUninit]
  case sensorInit => simp [body, sensorInit]
  case sensorProcessSignal => simp [body, sensorProcessSignal]
  case sensorRegister => simp [body, sensorRegister]
  case sensorCaptureStart => simp [body, sensorCaptureStart]
  case dbCheckAndCreateTable => simp [body, dbCheckAndCreateTable]
  case dbConvertOldDb =>
    simp [body, dbConvertOldDb]
  case dbReadToTz => simp [body, dbReadToTz]
  case dbWriteToDb => simp [body, dbWriteToDb]
  case dbInit => simp [body, dbInit]
  case dbUninit => simp [body, dbUninit]
  case sendErrorNotice => simp [body, sendErrorNotice]
  case sendAcquiredNotice => simp [body, sendAcquiredNotice]
  case sendEnrollNotice => simp [body, sendEnrollNotice]
  case sendAuthenticatedNotice => simp [body, sendAuthenticatedNotice]
  case sendRemoveNotice => simp [body, sendRemoveNotice]
  case fingerprintGetAuthId => simp [body, fingerprintGetAuthId]
  case fingerprintSetActiveGroup => simp [body, fingerprintSetActiveGroup]
  case fingerprintAuthenticate => simp [body, fingerprintAuthenticate]
  case fingerprintEnroll hat _ => cases hat <;> simp [body, fingerprintEnroll]
  case fingerprintPreEnroll => simp [body, fingerprintPreEnroll]
  case fingerprintPostEnroll => simp [body, fingerprintPostEnroll]
  case fingerprintEnumerate => simp [body, fingerprintEnumerate]
  case fingerprintRemove fid =>
    by_cases hfid : fid = 0
    · simp [body, fingerprintRemove, hfid, prompt_removeFingers]
    · simp [body, fingerprintRemove, hfid]
  case setNotifyCallback => simp [body, setNotifyCallback]
  case fingerprintOpen => simp [body, fingerprintOpen]

/-- A procedure that does not poll ends. -/
theorem prompt_ends {c : Call} (hc : prompt c = true) :
    Ends hal fine (fun _ => False) (fun _ => True) (body c) := by
  have hbody : ∀ d, prompt d = true →
      (callsUntil (fun _ => false) fun d' => prompt d' = true ∧ depth d' < depth d).Follows fine
        (body d) (fun _ _ => True) true := fun d hd =>
    (prompt_body d hd).imp (f := fun _ => true) (fun _ _ => trivial) (fun _ _ _ _ => rfl)
      (fun _ _ hc _ => hc) fun _ _ _ _ hz => ⟨(), hz, trivial⟩
  exact (ends_of_depth hbody c hc).imp fun _ he => by cases he

/-- Procedures that do not poll never sleep. -/
theorem awakeProtocol_valid : (awakeProtocol fun c => prompt c = true).Valid fine body := by
  intro c _ x hc
  refine (prompt_body c hc).imp (f := id) (fun _ _ => trivial) ?_ ?_ ?_
  · exact fun _ _ _ hy => hy
  · exact fun _ _ hd => hd.1
  · exact fun _ _ _ z _ => ⟨z, rfl, trivial⟩

/-- Whether an event gives `mu` up, or takes it. -/
def leaves (mu : Mutex) : HalEvent → Bool
  | .op o _ => givenUp o == some mu || taken o == some mu
  | _ => false

/-- The wait for the finger gives `sensor.lock` up, or ends. -/
theorem captureWait_ends :
    Ends hal fine (leaves .sensorLock · = true) (fun _ => True) (body .vcsStartCaptureWait) := by
  refine ends_of_callsUntil (B := fun c => prompt c = true) (fun c hc => ?_) ?_
  · exact (prompt_ends hc).imp fun _ he => he.elim
  · simp [body, vcsStartCaptureWait, Protocol.callRule, leaves, givenUp, taken]

end bodies

/-! ## What is called in a critical section -/

/-- With a mutex held only procedures that do not poll are called, or the wait for the finger. -/
theorem prompt_of_ordered {entry : Call} {x : Held} {c : Call} {mu : Mutex} (h : ordered entry x c)
    (hx : x.get mu = true) : prompt c = true ∨ c = .vcsStartCaptureWait ∧ mu = .sensorLock := by
  have hnone : x ≠ .none := by
    rintro rfl
    cases (Held.get_none mu).symm.trans hx
  have hfree : ∀ mu, x.mayTake mu = true → rank mu = 0 → False := by
    intro nu htake hrank
    have hlt := (x.mayTake_iff nu).mp htake mu hx
    omega
  cases c
  all_goals first | exact .inl rfl | skip
  case vcsStartCaptureWait =>
    refine .inr ⟨rfl, ?_⟩
    rw [h.2] at hx
    cases mu <;> first | rfl | cases hx
  case vcsStartCaptureRead | vcsTimeoutLoop | fingerprintCancelLoop => exact (hnone h.2).elim
  all_goals exact (hfree .vdevLock (h.1 _ (by simp [acquires])) rfl).elim

section

variable {s₀ s : Hal} {t : Tid}

/-- **Critical sections end.** In every interleaving, whoever holds a mutex is only finitely many
of its own steps away from giving it up, whatever is answered; or from taking it again. -/
theorem critical_section_ends (hpool : ∀ t, s₀.pool t = none)
    (hlocks : ∀ mu, s₀.mem.locks mu = none)
    (h : s₀.Reaches fine entryPoints (fun _ _ _ => True) s) {mu : Mutex}
    (hheld : s.mem.locks mu = some t) :
    ∃ th, s.pool t = some th ∧ Ends hal fine (leaves mu · = true) (fun _ => False) th.code := by
  obtain ⟨φ, hs, hφ⟩ := stagesMatch hpool hlocks h
  have hget := (hφ t mu).mpr hheld
  cases hth : s.pool t with
  | none =>
    rw [hs.away t hth] at hget
    cases (Held.get_none mu).symm.trans hget
  | some th =>
    refine ⟨th, rfl, ?_⟩
    have hends := (hs.follows t th hth).ends (M := hal) (E := (leaves mu · = true))
      (D := fun x => x.get mu = true) ?_ ?_ ?_ hget
    · refine hends.mono ?_
      rintro r ⟨y, rfl, hy⟩
      cases (Held.get_none mu).symm.trans hy
    · intro x e hx he
      cases e with
      | op o r =>
        cases o with
        | lock nu =>
          cases nu with
          | vdevLock =>
            rintro - rfl
            cases mu <;> first | cases hx; done | exact he rfl
          | _ => trivial
        | _ => trivial
      | _ => trivial
    · intro x e y hx hy he
      cases e with
      | op o r =>
        simp only [orderRoles, orderProtocol_next_op] at hy
        split at hy
        case isFalse => cases hy
        have hleaves : ¬ (givenUp o = some mu ∨ taken o = some mu) := by simpa [leaves] using he
        obtain ⟨nu, hnu, -, hafter⟩ | ⟨nu, hnu, -, hafter⟩ | ⟨-, hafter⟩ :=
          locksAfter_cases t s.mem.locks x o
        · rw [hafter] at hy
          split at hy <;> cases hy
          have hne : mu ≠ nu := fun hmu => hleaves (.inr (hmu ▸ hnu))
          rwa [Held.get_set, if_neg hne]
        · rw [hafter] at hy
          cases hy
          have hne : mu ≠ nu := fun hmu => hleaves (.inl (hmu ▸ hnu))
          rwa [Held.get_set, if_neg hne]
        · rw [hafter] at hy
          cases hy
          exact hx
      | enter c | done c r =>
        cases hy
        exact hx
    · intro c x _ hx hc
      have hback : ∀ r : Ret c, ∃ y, y = x ∧ y.get mu = true := fun r => ⟨x, rfl, hx⟩
      obtain hprompt | ⟨rfl, rfl⟩ := prompt_of_ordered hc hx
      · exact ((prompt_ends hprompt).imp fun _ he => he.elim).mono fun r _ => hback r
      · exact captureWait_ends.mono fun r _ => hback r

end

/-! ## Fair executions -/

/-- Whoever waits for itself holds no other mutex. -/
theorem eq_vdevLock_of_selfLocked {s : Hal} {φ : Tid → Held} {t : Tid} {mu : Mutex}
    (hs : Staged orderRoles fine s.pool φ) (hφ : StagesMatch s φ) (h : SelfLocked s t)
    (hheld : s.mem.locks mu = some t) : mu = .vdevLock := by
  obtain ⟨-, hwanted, -⟩ := h
  have hget := (hφ t mu).mpr hheld
  cases hth : s.pool t with
  | none => simp [wanted, hth] at hwanted
  | some th =>
    obtain ⟨entry, code⟩ := th
    have htaken : acquiring code = some .vdevLock := by simpa [wanted, hth] using hwanted
    cases code with
    | ret | call => cases htaken
    | op o k =>
      by_contra hmu
      have hown : notOwn entry (φ t) o := by
        have hx : φ t ≠ { Held.none with vdev := true } := by
          intro hx
          rw [hx] at hget
          cases mu <;> first | exact hmu rfl | cases hget
        cases o with
        | lock nu => cases nu <;> first | exact fun _ => hx | trivial
        | _ => trivial
      have hpermits := permits_of_follows (hs.follows t _ hth) rfl hown
      cases o <;> first | cases htaken; done | skip
      case lock nu =>
        cases htaken
        exact absurd (((φ t).mayTake_iff .vdevLock).mp hpermits mu hget) (Nat.not_lt_zero _)
      case condWake | condTimedWake =>
        rw [none_of_asleep hpermits rfl, Held.get_none] at hget
        cases hget

/-- A mutex goes from one holder to another only through nobody's hands. -/
theorem locks_of_moves {s s' : Hal} {mu : Mutex} {t : Tid}
    (h : s.Moves fine entryPoints s') (hheld : s.mem.locks mu = some t) :
    s'.mem.locks mu = some t ∨ s'.mem.locks mu = none := by
  cases h with
  | stay => exact .inl hheld
  | arrive => exact .inl hheld
  | run u e s' hr =>
    cases e with
    | op o r =>
      obtain ⟨-, -, m, -, -, ⟨ch, hact⟩, -⟩ := hr.moves
      rw [(effect_of_runs hr).locks]
      obtain ⟨nu, hnu, hl, -⟩ | ⟨nu, -, hl, -⟩ | ⟨hl, -⟩ :=
        locksAfter_cases u s.mem.locks .none o
      · have hne : mu ≠ nu := by
          rintro rfl
          cases hheld.symm.trans (free_of_taken hact hnu)
        exact .inl (by rw [hl, Function.update_of_ne hne, hheld])
      · rw [hl]
        by_cases hmu : mu = nu
        · exact .inr (by rw [hmu, Function.update_self])
        · exact .inl (by rw [Function.update_of_ne hmu, hheld])
      · exact .inl (by rw [hl, hheld])
    | enter c => exact .inl (by rw [mem_of_enters hr, hheld])
    | done c r => exact (not_done_of_fine hr).elim

/-- Who leaves a mutex does not hold it before or does not hold it afterwards. -/
theorem not_held_of_leaves {s s' : Hal} {mu : Mutex} {t : Tid} {e : HalEvent}
    (hr : s.Runs fine t e s') (he : leaves mu e = true) (hheld : s.mem.locks mu = some t) :
    s'.mem.locks mu = none := by
  cases e with
  | op o r =>
    obtain ⟨-, -, m, -, -, ⟨ch, hact⟩, -⟩ := hr.moves
    obtain hgiven | htaken : givenUp o = some mu ∨ taken o = some mu := by
      simpa [leaves] using he
    · rw [(effect_of_runs hr).locks]
      cases o <;> cases hgiven <;> exact Function.update_self ..
    · cases hheld.symm.trans (free_of_taken hact htaken)
  | enter c | done c r => cases he

section

variable {σ : Execution hal fine entryPoints} {m₀ : Mem} {n : ℕ} {t : Tid}

/-- In every state of an execution the stages match the mutexes. -/
theorem stagesMatch_at (h₀ : σ.state 0 = Hal.idle m₀) (hlocks : ∀ mu, m₀.locks mu = none) (n : ℕ) :
    ∃ φ, Staged orderRoles fine (σ.state n).pool φ ∧ StagesMatch (σ.state n) φ :=
  stagesMatch (fun t => by rw [h₀]; rfl) (fun mu => by rw [h₀]; exact hlocks mu) (σ.reaches n)

/-- A thread that is about to take a mutex that is free later on has run by then, or can. -/
theorem canRun_of_free_later {th : Thread Resp Ret} {mu : Mutex} {k : Unit → Code (Ret th.entry)}
    {m : ℕ} (hnm : n ≤ m) (hth : (σ.state n).pool t = some th) (hcode : th.code = .op (.lock mu) k)
    (hfree : (σ.state m).mem.locks mu = none) : ∃ j, n ≤ j ∧ (σ.state j).CanRun fine t := by
  by_cases hran : ∃ j, n ≤ j ∧ σ.RunsAt t j
  · obtain ⟨j, hj, e, hr⟩ := hran
    exact ⟨j, hj, e, _, hr⟩
  · have hstays := Execution.pool_of_not_runsAt hnm (fun j hj _ hr => hran ⟨j, hj, hr⟩) hth
    have hact : act (σ.state m).fin t (.lock mu) .tick (σ.state m).mem =
        some ((), (σ.state m).mem.setLock mu (some t)) := if_pos hfree
    exact ⟨m, hnm, canRun_of_act hstays hcode hact rfl⟩

/-- **Every mutex is free again and again** in a fair execution, but for one that is held by a
`fingerprint_enroll` that waits for itself, until a thread dereferences a NULL handle. -/
theorem mutex_free_again (h₀ : σ.state 0 = Hal.idle m₀) (hlocks : ∀ mu, m₀.locks mu = none)
    (hfair : σ.Fair) (mu : Mutex) (n : ℕ) :
    ∃ m, n ≤ m ∧ ((σ.state m).mem.locks mu = none ∨
      ∃ t, SelfLocked (σ.state m) t ∧ (σ.state m).mem.locks mu = some t ∨
        Faulted (σ.state m) t) := by
  -- mutexes of higher ranks first
  induction hrank : 4 - rank mu using Nat.strongRecOn generalizing mu n with
  | ind d ih =>
    cases hl : (σ.state n).mem.locks mu with
    | none => exact ⟨n, Nat.le_refl n, .inl hl⟩
    | some t =>
      by_contra hnever
      have hheld : ∀ m, n ≤ m → (σ.state m).mem.locks mu = some t := by
        intro m hm
        induction hm with
        | refl => exact hl
        | @step m hm ihm =>
          refine (locks_of_moves (σ.moves m) ihm).resolve_right fun hfree => hnever ?_
          exact ⟨m + 1, Nat.le_succ_of_le hm, .inl hfree⟩
      have hself : ∀ m, n ≤ m → ¬ SelfLocked (σ.state m) t := fun m hm hs =>
        hnever ⟨m, hm, .inr ⟨t, .inl ⟨hs, hheld m hm⟩⟩⟩
      have hsound : ∀ m, n ≤ m → ∀ u, ¬ Faulted (σ.state m) u := fun m hm u hu =>
        hnever ⟨m, hm, .inr ⟨u, .inr hu⟩⟩
      obtain ⟨⟨c, p⟩, hth, hends⟩ := critical_section_ends (fun t => by rw [h₀]; rfl)
        (fun mu => by rw [h₀]; exact hlocks mu) (σ.reaches n) hl
      have hgo : ∀ m, n ≤ m → ∀ q, (σ.state m).pool t = some ⟨c, q⟩ → q.finished = false →
          ∃ j, m ≤ j ∧ (σ.state j).CanRun fine t := by
        intro m hm q hq _
        obtain ⟨φ, hs, hφ⟩ := stagesMatch_at h₀ hlocks m
        by_cases hwait : ∃ u, WaitsFor (σ.state m).mem.locks (wanted (σ.state m)) t u
        · obtain ⟨u, nu, hwanted, -⟩ := hwait
          have horder : rank mu < rank nu := by
            by_contra hnot
            refine hself m hm (selfLocked_of_not_inOrder hs hφ fun hin => hnot ?_)
            exact hin nu mu hwanted (hheld m hm)
          have hlt := rank_lt nu
          obtain ⟨j, hj, hfree | ⟨v, ⟨hv, hnu⟩ | hv⟩⟩ := ih (4 - rank nu) (by omega) nu m rfl
          · obtain ⟨o, k, rfl⟩ : ∃ o k, q = .op o k := by
              cases q <;> first | exact ⟨_, _, rfl⟩ | simp [wanted, hq, acquiring] at hwanted
            have htaken : taken o = some nu := by simpa [wanted, hq, acquiring] using hwanted
            cases o <;> first | cases htaken; done | skip
            case lock mu' =>
              cases htaken
              exact canRun_of_free_later hj hq rfl hfree
            case condWake c mu' | condTimedWake c mu' =>
              refine (sleeper_holds_nothing (fun t => by rw [h₀]; rfl)
                (fun mu => by rw [h₀]; exact hlocks mu) (σ.reaches m) hq rfl rfl mu ?_).elim
              exact hheld m hm
          · obtain ⟨ψ, hs', hψ⟩ := stagesMatch_at h₀ hlocks j
            rw [eq_vdevLock_of_selfLocked hs' hψ hv hnu] at horder
            exact absurd horder (Nat.not_lt_zero _)
          · exact absurd hv (hsound j (by omega) v)
        · have hcan := canRun_of_holder hs hφ (hheld m hm) fun u hu => hwait ⟨u, hu⟩
          exact ⟨m, Nat.le_refl m, hcan.resolve_right (hsound m hm t)⟩
      obtain ⟨m, hm, ⟨e, he, hr⟩ | ⟨a, ha, -⟩⟩ := hfair.ends hgo hends hth
      · have hfree := not_held_of_leaves hr he (hheld m hm)
        cases hfree.symm.trans (hheld (m + 1) (Nat.le_succ_of_le hm))
      · exact ha

/-- A thread that does not sleep can run again and again, until a `fingerprint_enroll` waits for
itself or a thread dereferences a NULL handle. -/
theorem canRun_of_awake (h₀ : σ.state 0 = Hal.idle m₀) (hlocks : ∀ mu, m₀.locks mu = none)
    (hfair : σ.Fair) {th : Thread Resp Ret} (hth : (σ.state n).pool t = some th)
    (hunfinished : th.code.finished = false)
    (hawake : ∀ o k, th.code = .op o k → asleep o = false) :
    ∃ m, n ≤ m ∧ ((σ.state m).CanRun fine t ∨
      ∃ u, SelfLocked (σ.state m) u ∨ Faulted (σ.state m) u) := by
  obtain ⟨c, p⟩ := th
  cases p with
  | ret a => cases hunfinished
  | call d k =>
    refine ⟨n, Nat.le_refl n, .inl ⟨.enter d, _, ⟨_, _, _, hth, .enter d k rfl, rfl, rfl⟩, ?_⟩⟩
    intro u d' hb
    cases hb
  | op o k =>
    by_cases hfault : o = .fault
    · subst hfault
      exact ⟨n, Nat.le_refl n, .inr ⟨t, .inr ⟨c, k, hth⟩⟩⟩
    have hsleep := hawake o k rfl
    cases htaken : taken o with
    | none =>
      obtain ⟨ch, r, m, hact, hborn⟩ := act_enabled htaken hsleep hfault
      exact ⟨n, Nat.le_refl n, .inl (canRun_of_act hth rfl hact hborn)⟩
    | some mu =>
      cases o <;> first | cases htaken; done | cases hsleep; done | skip
      case lock mu' =>
        obtain ⟨m, hm, hfree | ⟨u, hu⟩⟩ := mutex_free_again h₀ hlocks hfair mu' n
        · obtain ⟨j, hj, hcan⟩ := canRun_of_free_later hm hth rfl hfree
          exact ⟨j, hj, .inl hcan⟩
        · exact ⟨m, hm, .inr ⟨u, hu.imp_left (·.1)⟩⟩

/-- A thread that runs a procedure that does not poll is never about to sleep. -/
theorem awake_of_prompt (h₀ : σ.state 0 = Hal.idle m₀) {c : Call} {p : Code (Ret c)}
    (hc : prompt c = true) (hth : (σ.state n).pool t = some ⟨c, p⟩) {o : Op}
    {k : Resp o → Code (Ret c)} (hp : p = .op o k) : asleep o = false := by
  have hstart : (awakeProtocol fun c => prompt c = true).Follows fine (.call c .ret)
      (fun _ _ => True) () := by simp [hc]
  obtain ⟨hpath, -⟩ := State.Reaches.path (A := fun _ => True) (fun _ _ _ _ _ => trivial)
    (fun t => by rw [h₀]; rfl) (by rw [h₀]; rfl) (σ.reaches n) hth
  obtain ⟨x, -, hfollows⟩ := hstart.path awakeProtocol_valid (fun _ _ _ => trivial) hpath
  subst hp
  obtain ⟨r⟩ : Nonempty (Resp o) := inferInstance
  obtain ⟨y, hy, -⟩ := (hfollows r).next trivial
  have hnext : (if asleep o then none else some ()) = some y := hy
  cases hsleep : asleep o with
  | false => rfl
  | true => simp [hsleep] at hnext

/-- **No entry point hangs** in a fair execution, until a `fingerprint_enroll` waits for itself or a
thread dereferences a NULL handle, but for those that wait for the worker. -/
theorem entry_point_returns (h₀ : σ.state 0 = Hal.idle m₀) (hlocks : ∀ mu, m₀.locks mu = none)
    (hfair : σ.Fair) {c : Call} (hc : prompt c = true) (hentry : (σ.state n).entry t = some c) :
    ∃ m, n ≤ m ∧ ((∃ r, (σ.state m).pool t = some ⟨c, .ret r⟩) ∨
      ∃ u, SelfLocked (σ.state m) u ∨ Faulted (σ.state m) u) := by
  by_contra hnever
  obtain ⟨p, hth⟩ : ∃ p, (σ.state n).pool t = some ⟨c, p⟩ := by
    cases hth : (σ.state n).pool t with
    | none => simp [State.entry, hth] at hentry
    | some th =>
      obtain ⟨d, p⟩ := th
      obtain rfl : d = c := by simpa [State.entry, hth] using hentry
      exact ⟨p, rfl⟩
  have hends : Ends hal fine (fun _ => False) (fun _ => True) (.call c .ret) :=
    .call rfl (prompt_ends hc) fun r _ => .ret r trivial
  obtain ⟨hpath, -⟩ := State.Reaches.path (A := fun _ => True) (fun _ _ _ _ _ => trivial)
    (fun t => by rw [h₀]; rfl) (by rw [h₀]; rfl) (σ.reaches n) hth
  have hgo : ∀ m, n ≤ m → ∀ q, (σ.state m).pool t = some ⟨c, q⟩ → q.finished = false →
      ∃ j, m ≤ j ∧ (σ.state j).CanRun fine t := by
    intro m hm q hq hunfinished
    obtain ⟨j, hj, hcan | hself⟩ := canRun_of_awake h₀ hlocks hfair hq hunfinished
      fun o k hk => awake_of_prompt h₀ hc hq hk
    · exact ⟨j, hj, hcan⟩
    · exact (hnever ⟨j, by omega, .inr hself⟩).elim
  obtain ⟨m, hm, ⟨e, he, -⟩ | ⟨r, -, hr⟩⟩ :=
    hfair.ends hgo (hends.path hpath fun _ _ he => he) hth
  · exact he
  · exact hnever ⟨m, hm, .inl ⟨r, hr⟩⟩

end

/-- `fingerprint_authenticate` of thread 1 up to where it holds `vdev->lock` and `tz.lock`, and
`fingerprint_get_auth_id` of thread 2 up to where it waits for the former. -/
def contended : List (Label hal) :=
  .arrive 1 (.fingerprintAuthenticate 8) :: ticks 1 7 ++ .arrive 2 .fingerprintGetAuthId :: ticks 2 1

/-- The rest of both; the worker cannot be created. -/
def uncontended : List (Label hal) :=
  ticks 1 31 ++ .run 1 [.num 11] :: ticks 1 1 ++ ticks 2 5

/-- An execution in which `fingerprint_get_auth_id` waits, after ten moments, for a
`fingerprint_authenticate` that holds two mutexes. -/
theorem exists_contended : ∃ σ : Execution hal fine entryPoints, σ.Fair ∧
    σ.state 0 = Hal.idle .started ∧ (σ.state 10).mem.locks .vdevLock = some 1 ∧
    (σ.state 10).mem.locks .tzLock = some 1 ∧
    (σ.state 10).entry 2 = some .fingerprintGetAuthId := by
  obtain ⟨s, id, hs, hfirst, hsecond, hothers⟩ : ∃ s id,
      (Hal.idle .started).exec fine entryPoints (fun _ _ _ => true)
        (contended ++ uncontended) = some s ∧
      s.pool 1 = some ⟨.fingerprintAuthenticate 8, .ret 11⟩ ∧
      s.pool 2 = some ⟨.fingerprintGetAuthId, .ret id⟩ ∧
      ∀ t, t ≠ 1 → t ≠ 2 → s.pool t = none := by
    refine ⟨_, _, rfl, rfl, rfl, fun t ht ht' => ?_⟩
    simp [State.poolAfter, State.add, Hal.idle, Machine.born, spawns, ht, ht']
  have hstop : ∀ t, ¬ s.CanRun fine t := by
    rintro t ⟨e, s', hr⟩
    by_cases ht : t = 1
    · subst ht
      obtain ⟨p, hn, -⟩ := hr.code hfirst
      cases hn
    · obtain rfl : t = 2 := by_contra fun ht' => hr.mem_pool (hothers t ht ht')
      obtain ⟨p, hn, -⟩ := hr.code hsecond
      cases hn
  obtain ⟨σ, hfair, hstates⟩ := Execution.exists_of_exec hs hstop
  obtain ⟨s₁, hs₁, hvdev, htz, hentry⟩ : ∃ s₁, (Hal.idle .started).exec fine entryPoints
      (fun _ _ _ => true) contended = some s₁ ∧ s₁.mem.locks .vdevLock = some 1 ∧
      s₁.mem.locks .tzLock = some 1 ∧ s₁.entry 2 = some .fingerprintGetAuthId :=
    ⟨_, rfl, rfl, rfl, rfl⟩
  obtain rfl := hstates 10 s₁ (by decide) hs₁
  exact ⟨σ, hfair, hstates 0 _ (Nat.zero_le _) rfl, hvdev, htz, hentry⟩

/-- `fingerprint_authenticate` will give `vdev->lock` back, once it has given `tz.lock` back. -/
theorem critical_section_contended : ∃ (s : Hal) (th : Thread Resp Ret), s.pool 1 = some th ∧
    s.mem.locks .tzLock = some 1 ∧
    Ends hal fine (leaves .vdevLock · = true) (fun _ => False) th.code := by
  obtain ⟨σ, -, h₀, hvdev, htz, -⟩ := exists_contended
  obtain ⟨th, hth, hends⟩ := critical_section_ends (fun t => by rw [h₀]; rfl)
    (fun mu => by rw [h₀]; rfl) (σ.reaches 10) hvdev
  exact ⟨_, th, hth, htz, hends⟩

/-- After that `vdev->lock` is free. -/
theorem mutex_free_contended : ∃ (σ : Execution hal fine entryPoints) (m : ℕ), 10 ≤ m ∧
    ((σ.state m).mem.locks .vdevLock = none ∨
      ∃ t, SelfLocked (σ.state m) t ∧ (σ.state m).mem.locks .vdevLock = some t ∨
        Faulted (σ.state m) t) := by
  obtain ⟨σ, hfair, h₀, -⟩ := exists_contended
  exact ⟨σ, mutex_free_again h₀ (fun _ => rfl) hfair .vdevLock 10⟩

/-- `fingerprint_get_auth_id`, which waits for it, returns. -/
theorem contended_returns : ∃ (σ : Execution hal fine entryPoints) (m : ℕ), 10 ≤ m ∧
    ((∃ r, (σ.state m).pool 2 = some ⟨.fingerprintGetAuthId, .ret r⟩) ∨
      ∃ u, SelfLocked (σ.state m) u ∨ Faulted (σ.state m) u) := by
  obtain ⟨σ, hfair, h₀, -, -, hentry⟩ := exists_contended
  exact ⟨σ, entry_point_returns h₀ (fun _ => rfl) hfair rfl hentry⟩

end KlteCommon.Analysis
