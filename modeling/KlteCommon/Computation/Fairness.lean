import KlteCommon.Computation.Ending
import Mathlib.Data.Nat.Find
import Mathlib.Logic.Relation

/-!
# Fair executions and chains of waits

An execution is an infinite sequence of states, each from the one before by a step of a thread, by
an arrival or by nothing. It is fair if every thread that can run again and again does run again
and again. What a thread cannot put off then happens, if the thread can run again and again until
it does (`Fair.ends`).

What may keep a thread from running is that it waits for a lock. A holder of locks keeps to the order
if the lock it wants ranks above every lock it holds. Where all do, the chain of waits from any one of
them ends at one that waits for nobody (`waits_end`): ranks rise along the chain, and there are only
so many.
-/

set_option autoImplicit false

namespace KlteCommon.Computation

variable {Op Call : Type} {Resp : Op → Type} {Ret : Call → Type} {M : Machine Resp Ret}

/-- Thread `t` can take a step. -/
def State.CanRun (atomic : Call → Bool) (s : State M) (t : Tid) : Prop :=
  ∃ e s', s.Runs atomic t e s'

/-- What may happen to a state at once. -/
inductive State.Moves (atomic arrives : Call → Bool) (s : State M) : State M → Prop
  | stay : Moves atomic arrives s s
  | arrive (t : Tid) (c : Call) (ha : arrives c = true) (hp : s.pool t = none) :
    Moves atomic arrives s (s.add t c)
  | run (t : Tid) (e : Event Resp Ret) (s' : State M) (hr : s.Runs atomic t e s') :
    Moves atomic arrives s s'

/-- An infinite run. -/
structure Execution (M : Machine Resp Ret) (atomic arrives : Call → Bool) where
  state : ℕ → State M
  moves : ∀ n, (state n).Moves atomic arrives (state (n + 1))

namespace Execution

variable {atomic arrives : Call → Bool} (σ : Execution M atomic arrives)

/-- At moment `n` thread `t` takes a step. -/
def RunsAt (t : Tid) (n : ℕ) : Prop := ∃ e, (σ.state n).Runs atomic t e (σ.state (n + 1))

/-- Every thread that can run again and again does. -/
def Fair : Prop :=
  ∀ t, (∀ n, ∃ m, n ≤ m ∧ (σ.state m).CanRun atomic t) → ∀ n, ∃ m, n ≤ m ∧ σ.RunsAt t m

variable {σ}

/-- Every state of an execution is reached from the first one. -/
theorem reaches (n : ℕ) :
    (σ.state 0).Reaches atomic arrives (fun _ _ _ => True) (σ.state n) := by
  induction n with
  | zero => exact .refl
  | succ n ih =>
    generalize hs : σ.state (n + 1) = s
    cases hs ▸ σ.moves n with
    | stay => exact ih
    | arrive t c ha hp => exact .arrive ih ha hp
    | run t e s' hr => exact .run ih trivial hr

/-- A thread that does not run stays as it is. -/
theorem pool_succ {t : Tid} {th : Thread Resp Ret} {n : ℕ} (h : ¬ σ.RunsAt t n)
    (hth : (σ.state n).pool t = some th) : (σ.state (n + 1)).pool t = some th := by
  have hmoves := σ.moves n
  unfold RunsAt at h
  generalize σ.state (n + 1) = s at h hmoves
  cases hmoves with
  | stay => exact hth
  | arrive u c ha hp =>
    have htu : t ≠ u := by
      rintro rfl
      simp [hp] at hth
    rw [State.pool_add, if_neg htu, hth]
  | run u e s' hr =>
    have htu : t ≠ u := fun htu => h ⟨e, htu ▸ hr⟩
    exact hr.pool_of_ne htu hth

/-- A thread is as it was until it runs. -/
theorem pool_of_not_runsAt {t : Tid} {th : Thread Resp Ret} {n m : ℕ} (hnm : n ≤ m)
    (h : ∀ k, n ≤ k → k < m → ¬ σ.RunsAt t k) (hth : (σ.state n).pool t = some th) :
    (σ.state m).pool t = some th := by
  induction hnm with
  | refl => exact hth
  | @step m hnm ih =>
    exact pool_succ (h m hnm (Nat.lt_succ_self m)) (ih fun k hk hlt => h k hk (by omega))

/-- **What cannot be put off happens**, in a fair execution in which the thread can run again and
again as long as it has not ended. -/
theorem Fair.ends {t : Tid} {c : Call} {E : Event Resp Ret → Prop} {Q : Ret c → Prop}
    {p : Prog Resp Ret (Ret c)} {n : ℕ} (hfair : σ.Fair)
    (hgo : ∀ m, n ≤ m → ∀ q, (σ.state m).pool t = some ⟨c, q⟩ → q.finished = false →
      ∃ k, m ≤ k ∧ (σ.state k).CanRun atomic t)
    (h : Ends M atomic E Q p) (hp : (σ.state n).pool t = some ⟨c, p⟩) :
    ∃ m, n ≤ m ∧ ((∃ e, E e ∧ (σ.state m).Runs atomic t e (σ.state (m + 1))) ∨
      ∃ a, Q a ∧ (σ.state m).pool t = some ⟨c, .ret a⟩) := by
  induction h generalizing n with
  | ret a ha => exact ⟨n, Nat.le_refl n, .inr ⟨a, ha, hp⟩⟩
  | step p hunfinished _ ih =>
    -- the first moment at which the thread runs
    have hruns : ∃ m, n ≤ m ∧ σ.RunsAt t m := by
      by_contra hnone
      have hcan : ∀ k, ∃ m, k ≤ m ∧ (σ.state m).CanRun atomic t := by
        intro k
        have hstays : (σ.state (n + k)).pool t = some ⟨c, p⟩ :=
          pool_of_not_runsAt (Nat.le_add_right n k) (fun j hj _ hr => hnone ⟨j, hj, hr⟩) hp
        obtain ⟨m, hm, hc⟩ := hgo (n + k) (Nat.le_add_right n k) p hstays hunfinished
        exact ⟨m, by omega, hc⟩
      exact hnone (hfair t hcan n)
    classical
    obtain ⟨⟨hm, e, hrun⟩, hfirst⟩ := And.intro (Nat.find_spec hruns)
      fun k (hk : k < Nat.find hruns) => Nat.find_min hruns hk
    generalize Nat.find hruns = m at hm hrun hfirst
    have hpool := pool_of_not_runsAt hm (fun k hk hlt hr => hfirst k hlt ⟨hk, hr⟩) hp
    by_cases hE : E e
    · exact ⟨m, hm, .inl ⟨e, hE, hrun⟩⟩
    · obtain ⟨p', hnext, hp'⟩ := hrun.code hpool
      obtain ⟨k, hk, hend⟩ := ih e p' hnext hE (fun j hj => hgo j (by omega)) hp'
      exact ⟨k, by omega, hend⟩

/-! ## Executions that stop -/

/-- An execution with one state more in front. -/
def cons {s : State M} (h : s.Moves atomic arrives (σ.state 0)) : Execution M atomic arrives where
  state n := n.casesOn s σ.state
  moves n := by
    cases n with
    | zero => exact h
    | succ n => exact σ.moves n

/-- A step before a fair execution. -/
theorem Fair.cons (hfair : σ.Fair) {s : State M} (h : s.Moves atomic arrives (σ.state 0)) :
    (Execution.cons h).Fair := by
  intro t hcan n
  have hlater : ∀ n, ∃ m, n ≤ m ∧ (σ.state m).CanRun atomic t := by
    intro n
    obtain ⟨m, hm, hc⟩ := hcan (n + 1)
    obtain ⟨k, rfl⟩ : ∃ k, m = k + 1 := ⟨m - 1, by omega⟩
    exact ⟨k, by omega, hc⟩
  obtain ⟨m, hm, hruns⟩ := hfair t hlater n
  exact ⟨m + 1, by omega, hruns⟩

/-- A schedule after which no thread can run is a fair execution. -/
theorem exists_of_exec {s s' : State M} {ls : List (Label M)}
    (h : s.exec atomic arrives (fun _ _ _ => true) ls = some s')
    (hstop : ∀ t, ¬ s'.CanRun atomic t) :
    ∃ σ : Execution M atomic arrives, σ.Fair ∧ ∀ k s₁, k ≤ ls.length →
      s.exec atomic arrives (fun _ _ _ => true) (ls.take k) = some s₁ → σ.state k = s₁ := by
  induction ls generalizing s with
  | nil =>
    obtain rfl := by simpa [State.exec] using h
    refine ⟨⟨fun _ => s, fun _ => .stay⟩, fun t hcan => ?_, fun k s₁ _ hs₁ => ?_⟩
    · obtain ⟨m, -, hc⟩ := hcan 0
      exact (hstop t hc).elim
    · simpa [State.exec] using hs₁
  | cons l ls ih =>
    obtain ⟨s₁, hmove, hexec⟩ : ∃ s₁, s.Moves atomic arrives s₁ ∧ ∀ ls',
        s.exec atomic arrives (fun _ _ _ => true) (l :: ls') =
          s₁.exec atomic arrives (fun _ _ _ => true) ls' := by
      simp only [State.exec] at h
      split at h
      · cases h
      · rename_i s₁ t c hs₁
        have hstep := hs₁
        simp only [State.step, Bool.and_eq_true, Option.isNone_iff_eq_none] at hs₁
        split at hs₁
        · rename_i hc
          obtain rfl := by simpa using hs₁
          exact ⟨_, .arrive t c hc.1 hc.2, fun ls' => by simp [State.exec, hstep]⟩
        · cases hs₁
      · rename_i s₁ t chs hs₁
        obtain ⟨e, he⟩ := State.run_inv hs₁
        exact ⟨s₁, .run t e s₁ he, fun ls' => by simp [State.exec, hs₁, he.log]⟩
    obtain ⟨σ, hfair, hstates⟩ := ih ((hexec ls).symm.trans h)
    obtain rfl := hstates 0 s₁ (Nat.zero_le _) rfl
    refine ⟨Execution.cons hmove, hfair.cons hmove, fun k s₂ hk hs₂ => ?_⟩
    cases k with
    | zero => exact Option.some.inj hs₂
    | succ k => exact hstates k s₂ (by simpa using hk) ((hexec _).symm.trans hs₂)

end Execution

/-! ## Chains of waits -/

section waits

variable {T L : Type} (holder : L → Option T) (wants : T → Option L) (rank : L → ℕ)

/-- `t` wants a lock that `u` holds. -/
def WaitsFor (t u : T) : Prop := ∃ l, wants t = some l ∧ holder l = some u

/-- The lock `t` wants ranks above every lock it holds. -/
def InOrder (t : T) : Prop := ∀ l l', wants t = some l → holder l' = some t → rank l' < rank l

variable {holder wants rank}

/-- **The chain of waits from any holder ends**, at one that breaks the order or at one that waits
for nobody. -/
theorem waits_end {bound : ℕ} (hbound : ∀ l, rank l < bound) (t : T) :
    ∃ u, Relation.ReflTransGen (WaitsFor holder wants) t u ∧
      (¬ InOrder holder wants rank u ∨ ∀ v, ¬ WaitsFor holder wants u v) := by
  have hnone : ∀ {t}, wants t = none → ∀ v, ¬ WaitsFor holder wants t v := by
    rintro t ht v ⟨l, hl, -⟩
    simp [ht] at hl
  cases hwant : wants t with
  | none => exact ⟨t, .refl, .inr (hnone hwant)⟩
  | some l =>
    -- along the chain the ranks that are left grow fewer
    induction hn : bound - rank l using Nat.strongRecOn generalizing t l with
    | ind n ih =>
      by_cases hwaits : ∃ v, WaitsFor holder wants t v
      · obtain ⟨v, hv⟩ := hwaits
        obtain ⟨l₁, hl₁, hheld⟩ := id hv
        obtain rfl : l = l₁ := Option.some.inj (hwant.symm.trans hl₁)
        by_cases horder : InOrder holder wants rank v
        · cases hwant' : wants v with
          | none => exact ⟨v, .single hv, .inr (hnone hwant')⟩
          | some l' =>
            have hlt : rank l < rank l' := horder l' l hwant' hheld
            have hle := hbound l'
            obtain ⟨u, hu, hend⟩ := ih (bound - rank l') (by omega) v l' hwant' rfl
            exact ⟨u, .head hv hu, hend⟩
        · exact ⟨v, .single hv, .inl horder⟩
      · exact ⟨t, .refl, .inr fun v hv => hwaits ⟨v, hv⟩⟩

end waits

end KlteCommon.Computation
