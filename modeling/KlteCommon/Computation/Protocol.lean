import KlteCommon.Computation.System
import Mathlib.Tactic.Simps.Basic

/-!
# Stage protocols

A `Protocol` is an automaton over the events of one thread, with a contract for each procedure:
the stages it may be entered in and the stages it may be left in. `Protocol.Follows` checks a
program against it by walking over the program's tree once; `Protocol.Valid` asks that of every
procedure's body, each against its own contract.

The point is `Staged.run`: in a system whose threads follow a protocol, every step moves one
thread along the automaton. What is to be shown of all interleavings is then shown of the memory
and of the stages (`State.Reaches.staged`), and the code is not looked at again.
-/

set_option autoImplicit false

namespace KlteCommon.Computation

variable {Op Call : Type} {Resp : Op → Type} {Ret : Call → Type} {S α β : Type}

/-- An automaton over a thread's events. `next x e = none` forbids `e` in stage `x`; `assume`
says which responses are relied on. `pre` and `post` are the procedures' contracts. -/
structure Protocol {Op Call : Type} (Resp : Op → Type) (Ret : Call → Type) (S : Type) where
  assume : S → Event Resp Ret → Prop
  next : S → Event Resp Ret → Option S
  pre : Call → S → Prop
  post : (c : Call) → S → Ret c → S → Prop

namespace Protocol

variable (P : Protocol Resp Ret S) (atomic : Call → Bool)

/-- The automaton takes event `e` in stage `x`, and `Q` holds of where it gets. -/
def Takes (x : S) (e : Event Resp Ret) (Q : S → Prop) : Prop :=
  P.assume x e →
    match P.next x e with
    | some y => Q y
    | none => False

/-- What the protocol asks of an operation. -/
def opRule (o : Op) (Q : Resp o → S → Prop) (x : S) : Prop :=
  ∀ r, P.Takes x (.op o r) (Q r)

/-- What the protocol asks of a call: the one event of an atomic call, else the contract. -/
def callRule (c : Call) (Q : Ret c → S → Prop) (x : S) : Prop :=
  if atomic c then ∀ r, P.Takes x (.done c r) (Q r)
  else P.Takes x (.enter c) fun y => P.pre c y ∧ ∀ r z, P.post c y r z → Q r z

/-- `p`, started in stage `x`, keeps to the protocol and ends with `Q`. -/
def Follows (p : Prog Resp Ret α) (Q : α → S → Prop) (x : S) : Prop :=
  p.wp P.opRule (P.callRule atomic) Q x

/-- Every procedure that is run step by step keeps to its contract. -/
def Valid (body : (c : Call) → Prog Resp Ret (Ret c)) : Prop :=
  ∀ c, atomic c = false → ∀ x, P.pre c x → P.Follows atomic (body c) (P.post c x) x

variable {P atomic}

/-- An event that is taken leads to a stage. -/
theorem Takes.next {x : S} {e : Event Resp Ret} {Q : S → Prop} (h : P.Takes x e Q)
    (ha : P.assume x e) : ∃ y, P.next x e = some y ∧ Q y := by
  have hQ := h ha
  split at hQ
  · exact ⟨_, ‹_›, hQ⟩
  · exact hQ.elim

/-- An event that leads to a stage is taken. -/
theorem Takes.intro {x y : S} {e : Event Resp Ret} {Q : S → Prop} (h : P.next x e = some y)
    (hQ : Q y) : P.Takes x e Q := by
  intro _
  rw [h]
  exact hQ

/-- A weaker condition on that stage. -/
theorem Takes.mono {x : S} {e : Event Resp Ret} {Q Q' : S → Prop} (h : ∀ y, Q y → Q' y)
    (ht : P.Takes x e Q) : P.Takes x e Q' := by
  intro ha
  obtain ⟨y, hy, hQ⟩ := ht.next ha
  exact Takes.intro hy (h y hQ) ha

/-- The consequence rule for `Follows`. -/
theorem Follows.mono {p : Prog Resp Ret α} {Q Q' : α → S → Prop} {x : S}
    (h : ∀ a y, Q a y → Q' a y) (hp : P.Follows atomic p Q x) : P.Follows atomic p Q' x := by
  refine Prog.wp_mono ?_ ?_ h hp
  · intro o Q Q' x hQ hop r
    exact (hop r).mono (hQ r)
  · intro c Q Q' x hQ hcall
    unfold callRule at hcall ⊢
    split
    · rename_i hc
      rw [if_pos hc] at hcall
      exact fun r => (hcall r).mono (hQ r)
    · rename_i hc
      rw [if_neg hc] at hcall
      exact hcall.mono fun y hy => ⟨hy.1, fun r z hz => hQ r z (hy.2 r z hz)⟩

/-- The sequencing rule for `Follows`. -/
theorem Follows.bind {p : Prog Resp Ret α} {f : α → Prog Resp Ret β} {Q : β → S → Prop} {x : S}
    (hp : P.Follows atomic p (fun a y => P.Follows atomic (f a) Q y) x) :
    P.Follows atomic (p >>= f) Q x := by
  unfold Follows at hp ⊢
  rwa [Prog.wp_bind]

/-! ### Walking over a tree

The simp set that takes `Follows` of a tree apart from the root down. A protocol adds the
equations of its own fields. -/

attribute [simp ↓] Takes opRule

/-- The rule for a program that is done. -/
@[simp ↓] theorem follows_ret (a : α) (Q : α → S → Prop) (x : S) :
    P.Follows atomic (.ret a) Q x ↔ Q a x := Iff.rfl

/-- The rule for a program that is done. -/
@[simp ↓] theorem follows_pure (a : α) (Q : α → S → Prop) (x : S) :
    P.Follows atomic (pure a) Q x ↔ Q a x := Iff.rfl

/-- The rule for sequencing. -/
@[simp ↓] theorem follows_bind (p : Prog Resp Ret α) (f : α → Prog Resp Ret β)
    (Q : β → S → Prop) (x : S) :
    P.Follows atomic (p >>= f) Q x ↔
      P.Follows atomic p (fun a => P.Follows atomic (f a) Q) x := by
  unfold Follows
  rw [Prog.wp_bind]

/-- The rule for a result that is mapped. -/
@[simp ↓] theorem follows_map (g : α → β) (p : Prog Resp Ret α) (Q : β → S → Prop) (x : S) :
    P.Follows atomic (g <$> p) Q x ↔ P.Follows atomic p (fun a => Q (g a)) x := by
  unfold Follows
  rw [Prog.wp_map]

/-- The rule for a branch. -/
@[simp ↓] theorem follows_ite (c : Prop) [Decidable c] (p q : Prog Resp Ret α)
    (Q : α → S → Prop) (x : S) :
    P.Follows atomic (if c then p else q) Q x ↔
      (c → P.Follows atomic p Q x) ∧ (¬ c → P.Follows atomic q Q x) := by
  split <;> simp [*]

/-- The rule for one operation. -/
@[simp ↓] theorem follows_perform (o : Op) (Q : Resp o → S → Prop) (x : S) :
    P.Follows atomic (.perform o) Q x ↔ P.opRule o Q x := Iff.rfl

/-- The rule for one call. -/
@[simp ↓] theorem follows_invoke (c : Call) (Q : Ret c → S → Prop) (x : S) :
    P.Follows atomic (.invoke c) Q x ↔ P.callRule atomic c Q x := Iff.rfl

/-- The rule for an operation. -/
@[simp ↓] theorem follows_op (o : Op) (k : Resp o → Prog Resp Ret α) (Q : α → S → Prop) (x : S) :
    P.Follows atomic (.op o k) Q x ↔ P.opRule o (fun r => P.Follows atomic (k r) Q) x := Iff.rfl

/-- The rule for a call. -/
@[simp ↓] theorem follows_call (c : Call) (k : Ret c → Prog Resp Ret α) (Q : α → S → Prop) (x : S) :
    P.Follows atomic (.call c k) Q x ↔
      P.callRule atomic c (fun r => P.Follows atomic (k r) Q) x := Iff.rfl

/-- An atomic call is one event. -/
theorem callRule_atomic {c : Call} {Q : Ret c → S → Prop} {x : S} {y : Ret c → S}
    (hc : atomic c = true) (ha : ∀ r, P.assume x (.done c r))
    (hn : ∀ r, P.next x (.done c r) = some (y r)) :
    P.callRule atomic c Q x ↔ ∀ r, Q r (y r) := by
  simp [callRule, hc, ha, hn]

/-- A call whose entry keeps the stage. -/
theorem callRule_entered {c : Call} {Q : Ret c → S → Prop} {x : S} (hc : atomic c = false)
    (ha : P.assume x (.enter c)) (hn : P.next x (.enter c) = some x) :
    P.callRule atomic c Q x ↔ P.pre c x ∧ ∀ r y, P.post c x r y → Q r y := by
  simp [callRule, hc, ha, hn]

/-- The rule for code of which only the operations and calls it is made of are known: what all of
these keep is kept. -/
theorem Follows.keeps {A : Op → Prop} {B : Call → Prop} {T : S → Prop}
    (hatomic : ∀ c, B c → atomic c = false)
    (hA : ∀ o r x, A o → T x → ∃ y, P.next x (.op o r) = some y ∧ T y)
    (hB : ∀ c x, B c → T x → ∃ y, P.next x (.enter c) = some y ∧ P.pre c y ∧
      ∀ r z, P.post c y r z → T z)
    {p : Prog Resp Ret α} {Q : α → S → Prop} (hQ : ∀ a y, T y → Q a y) (hp : p.Within A B) {x : S}
    (hx : T x) : P.Follows atomic p Q x := by
  induction p generalizing x with
  | ret a => exact hQ a x hx
  | op o k ih =>
    intro r
    obtain ⟨y, hy, hT⟩ := hA o r x hp.1 hx
    exact .intro hy (ih r (hp.2 r) hT)
  | call c k ih =>
    obtain ⟨y, hy, hpre, hpost⟩ := hB c x hp.1 hx
    have h : P.callRule atomic c (fun r => P.Follows atomic (k r) Q) x := by
      rw [callRule, if_neg (by simp [hatomic c hp.1])]
      exact .intro hy ⟨hpre, fun r z hz => ih r (hp.2 r) (hpost r z hz)⟩
    exact h

/-- The frame rule: a tree of operations that leave stage `x` alone leaves it alone. -/
theorem Follows.frame {A : Op → Prop} {p : Prog Resp Ret α} {Q : α → S → Prop} {x : S}
    (hp : p.Within A fun _ => False) (hA : ∀ o, A o → ∀ r, P.next x (.op o r) = some x)
    (hQ : ∀ a, Q a x) : P.Follows atomic p Q x := by
  refine .keeps (T := (· = x)) (by simp) ?_ (by simp) ?_ hp rfl
  · rintro o r _ ho rfl
    exact ⟨_, hA o ho r, rfl⟩
  · rintro a _ rfl
    exact hQ a

/-- The protocol of a thread that performs only operations in `A` and calls only procedures in
`B`: its stage never changes. -/
@[reducible] def only (A : Op → Bool) (B : Call → Bool) : Protocol Resp Ret S where
  assume _ _ := True
  next x
    | .op o _ => if A o then some x else none
    | .enter c | .done c _ => if B c then some x else none
  pre c _ := B c = true
  post _ x _ y := y = x

/-- Programs of operations in `A` and calls in `B` keep to `only A B`. -/
theorem Follows.only {A : Op → Bool} {B : Call → Bool} {p : Prog Resp Ret α} {x : S}
    (hp : p.Within (A · = true) (B · = true)) :
    (only A B).Follows atomic p (fun _ y => y = x) x := by
  induction p with
  | ret a => rfl
  | op o k ih =>
    intro r
    exact .intro (if_pos hp.1) (ih r (hp.2 r))
  | call c k ih =>
    have hnext : ∀ e : Event Resp Ret, (∃ r, e = .done c r) ∨ e = .enter c →
        (Protocol.only A B).next x e = some x := by
      rintro _ (⟨r, rfl⟩ | rfl) <;> exact if_pos hp.1
    simp only [follows_call, callRule]
    split
    · exact fun r => .intro (hnext _ (.inl ⟨r, rfl⟩)) (ih r (hp.2 r))
    · refine .intro (hnext _ (.inr rfl)) ⟨hp.1, ?_⟩
      rintro r _ rfl
      exact ih r (hp.2 r)

/-- Bodies that keep to the lists follow the protocol that allows these only. -/
theorem only_valid {A : Op → Bool} {B : Call → Bool} {body : (c : Call) → Prog Resp Ret (Ret c)}
    (h : ∀ c, B c = true → (body c).Within (A · = true) (B · = true)) :
    (only A B : Protocol Resp Ret S).Valid atomic body :=
  fun c _ _ hc => .only (h c hc)

/-- A thread that keeps to `only A B` stays where it is. -/
theorem only_next {A : Op → Bool} {B : Call → Bool} {x y : S} {e : Event Resp Ret}
    (h : (only A B).next x e = some y) : y = x ∧ ∀ o r, e = .op o r → A o = true := by
  cases e with
  | op o r =>
    obtain ⟨ho, rfl⟩ : A o = true ∧ x = y := by simpa using h
    exact ⟨rfl, fun o' r' heq => by cases heq; exact ho⟩
  | enter c | done c r =>
    obtain ⟨-, rfl⟩ : B c = true ∧ x = y := by simpa using h
    exact ⟨rfl, nofun⟩

/-- One step of a program that follows the protocol is a step of the automaton. -/
theorem Follows.next {M : Machine Resp Ret} (hV : P.Valid atomic M.body)
    {p p' : Prog Resp Ret α} {e : Event Resp Ret} {Q : α → S → Prop} {x : S}
    (hp : P.Follows atomic p Q x) (hn : M.Next atomic p e p') (ha : P.assume x e) :
    ∃ y, P.next x e = some y ∧ P.Follows atomic p' Q y := by
  cases hn with
  | op o k r => exact (hp r).next ha
  | done c k r hc =>
    have h : P.callRule atomic c (fun r => P.Follows atomic (k r) Q) x := hp
    rw [callRule, if_pos hc] at h
    exact (h r).next ha
  | enter c k hc =>
    have h : P.callRule atomic c (fun r => P.Follows atomic (k r) Q) x := hp
    rw [callRule, if_neg (by simp [hc])] at h
    obtain ⟨y, hy, hpre, hpost⟩ := h.next ha
    exact ⟨y, hy, ((hV c hc y hpre).mono hpost).bind⟩

end Protocol

/-! ## Protocols in a system -/

/-- How the threads of a system take part in a protocol, by the call each is started with: the
protocol it keeps to, the stage it starts in and what it has established when it has finished.
`away` is the stage of a name that is not in use. -/
structure Roles {Op Call : Type} (Resp : Op → Type) (Ret : Call → Type) (S : Type) where
  protocol : Call → Protocol Resp Ret S
  away : S
  start : Call → S
  final : (c : Call) → Ret c → S → Prop

section Staged

variable {M : Machine Resp Ret} {atomic arrives : Call → Bool} (R : Roles Resp Ret S)

/-- A thread started with `c` keeps to its protocol. -/
def Roles.Starts (atomic : Call → Bool) (c : Call) : Prop :=
  (R.protocol c).Follows atomic (.call c .ret) (R.final c) (R.start c)

/-- The stages `φ` describe the threads of the pool. -/
structure Staged (atomic : Call → Bool) (pool : Tid → Option (Thread Resp Ret)) (φ : Tid → S) :
    Prop where
  follows : ∀ t th, pool t = some th →
    (R.protocol th.entry).Follows atomic th.code (R.final th.entry) (φ t)
  away : ∀ t, pool t = none → φ t = R.away

/-- The stages after thread `t` did `e` and got to stage `y`. -/
def stagesAfter (M : Machine Resp Ret) (φ : Tid → S) (t : Tid) (e : Event Resp Ret) (y : S) :
    Tid → S :=
  match M.born e with
  | none => Function.update φ t y
  | some (u, c) => Function.update (Function.update φ t y) u (R.start c)

/-- The stage of one name after a step: a created thread's is its first one. -/
theorem stagesAfter_cases (M : Machine Resp Ret) (φ : Tid → S) (t : Tid) (e : Event Resp Ret)
    (y : S) (u : Tid) :
    (∃ c, M.born e = some (u, c) ∧ stagesAfter R M φ t e y u = R.start c) ∨
      (∀ c, M.born e ≠ some (u, c)) ∧ stagesAfter R M φ t e y u = Function.update φ t y u := by
  unfold stagesAfter
  cases M.born e with
  | none => exact .inr ⟨nofun, rfl⟩
  | some vc =>
    obtain ⟨v, c⟩ := vc
    by_cases hvu : v = u
    · subst hvu
      exact .inl ⟨c, rfl, by simp⟩
    · exact .inr ⟨by simp [hvu], by simp [Ne.symm hvu]⟩

variable {R} {pool : Tid → Option (Thread Resp Ret)}

/-- Replacing one thread by one that keeps to its protocol from stage `y`. -/
theorem Staged.update {φ : Tid → S} (h : Staged R atomic pool φ) (t : Tid) (th : Thread Resp Ret)
    {y : S} (hth : (R.protocol th.entry).Follows atomic th.code (R.final th.entry) y) :
    Staged R atomic (Function.update pool t (some th)) (Function.update φ t y) where
  follows u th' hu := by
    by_cases hut : u = t
    · subst hut
      simp only [Function.update_self, Option.some.injEq] at hu ⊢
      subst hu
      exact hth
    · simp only [Function.update_of_ne hut] at hu ⊢
      exact h.follows u th' hu
  away u hu := by
    by_cases hut : u = t
    · subst hut; simp at hu
    · simp only [Function.update_of_ne hut] at hu ⊢
      exact h.away u hu

/-- A step of the system moves the stepping thread along its automaton. -/
theorem Staged.run {s s' : State M} {φ : Tid → S} {t : Tid} {th : Thread Resp Ret}
    {e : Event Resp Ret} (hV : ∀ c, (R.protocol c).Valid atomic M.body)
    (hborn : ∀ y u c, (R.protocol th.entry).next (φ t) e = some y → M.born e = some (u, c) →
      R.Starts atomic c)
    (h : Staged R atomic s.pool φ) (hth : s.pool t = some th) (hr : s.Runs atomic t e s')
    (ha : (R.protocol th.entry).assume (φ t) e) :
    ∃ y, (R.protocol th.entry).next (φ t) e = some y ∧
      Staged R atomic s'.pool (stagesAfter R M φ t e y) := by
  obtain ⟨th', p, m, hth', hnext, -, rfl⟩ := hr.moves
  obtain rfl : th = th' := by simpa [hth] using hth'
  obtain ⟨y, hy, hp⟩ := (h.follows t th hth).next (hV _) hnext ha
  refine ⟨y, hy, ?_⟩
  have hmain := h.update t ⟨th.entry, p⟩ hp
  cases hb : M.born e with
  | none => simpa only [stagesAfter, State.poolAfter, hb] using hmain
  | some uc =>
    obtain ⟨u, c⟩ := uc
    simpa only [stagesAfter, State.poolAfter, hb] using
      hmain.update u (.start c) (hborn y u c hy hb)

/-- What a step makes of the threads that do not take it: each is as it was, or has just been
created. -/
theorem State.Runs.others {s s' : State M} {t u : Tid} {e : Event Resp Ret} {c : Call}
    (hr : s.Runs atomic t e s') (hut : u ≠ t) (φ : Tid → S) (y : S) (hu : s'.entry u = some c) :
    (s.entry u = some c ∧ s'.fin u = s.fin u ∧ stagesAfter R M φ t e y u = φ u) ∨
      (M.born e = some (u, c) ∧ s.pool u = none ∧ s'.fin u = false ∧
        stagesAfter R M φ t e y u = R.start c) := by
  cases hpool : s.pool u with
  | some th =>
    have hkeep := hr.pool_of_ne hut hpool
    refine .inl ⟨?_, by simp [State.fin, hkeep, hpool], ?_⟩
    · rw [← hu, State.entry, State.entry, hkeep, hpool]
    · obtain ⟨d, hb, -⟩ | ⟨-, heq⟩ := stagesAfter_cases R M φ t e y u
      · simp [hr.fresh u d hb] at hpool
      · rw [heq, Function.update_of_ne hut]
  | none =>
    have hnone : s.entry u = none := by simp [State.entry, hpool]
    obtain h | hb := (hr.entry u c).mp hu
    · simp [hnone] at h
    refine .inr ⟨hb, rfl, by simp [State.fin, hr.pool_born hb, Thread.start, Prog.finished], ?_⟩
    obtain ⟨d, hb', heq⟩ | ⟨hb', -⟩ := stagesAfter_cases R M φ t e y u
    · obtain rfl : c = d := by simpa [hb] using hb'
      exact heq
    · exact absurd hb (hb' c)

/-- The induction rule for runs of threads that keep to their protocols: an invariant of the
state and the stages that holds at the start, survives arrivals and is kept by every step along
the automaton holds, for some stages that describe the threads, in every state reached. -/
theorem State.Reaches.staged {ok : State M → Tid → Event Resp Ret → Prop}
    {I : State M → (Tid → S) → Prop} {s₀ s : State M} (φ₀ : Tid → S)
    (hV : ∀ c, (R.protocol c).Valid atomic M.body)
    (hborn : ∀ d x e y u c, (R.protocol d).next x e = some y → M.born e = some (u, c) →
      R.Starts atomic c)
    (hentry : ∀ c, arrives c = true → R.Starts atomic c)
    (hstaged : Staged R atomic s₀.pool φ₀) (h₀ : I s₀ φ₀)
    (harrive : ∀ s φ t c, Staged R atomic s.pool φ → I s φ → arrives c = true →
      s.pool t = none → I (s.add t c) (Function.update φ t (R.start c)))
    (hassume : ∀ s φ t th e s', Staged R atomic s.pool φ → I s φ → ok s t e →
      s.pool t = some th → s.Runs atomic t e s' → (R.protocol th.entry).assume (φ t) e)
    (hrun : ∀ s φ t th e s' y, Staged R atomic s.pool φ → I s φ → ok s t e →
      s.pool t = some th → s.Runs atomic t e s' → (R.protocol th.entry).next (φ t) e = some y →
      Staged R atomic s'.pool (stagesAfter R M φ t e y) → I s' (stagesAfter R M φ t e y))
    (h : s₀.Reaches atomic arrives ok s) : ∃ φ, Staged R atomic s.pool φ ∧ I s φ := by
  induction h with
  | refl => exact ⟨φ₀, hstaged, h₀⟩
  | @arrive s t c _ ha hp ih =>
    obtain ⟨φ, hφ, hI⟩ := ih
    exact ⟨_, hφ.update t (.start c) (hentry c ha), harrive s φ t c hφ hI ha hp⟩
  | @run s s' t e _ ho hr ih =>
    obtain ⟨φ, hφ, hI⟩ := ih
    obtain ⟨th, -, -, hth, -⟩ := hr.moves
    obtain ⟨y, hy, hφ'⟩ := hφ.run hV (fun y u c => hborn _ _ e y u c) hth hr
      (hassume s φ t th e s' hφ hI ho hth hr)
    exact ⟨_, hφ', hrun s φ t th e s' y hφ hI ho hth hr hy hφ'⟩

end Staged

end KlteCommon.Computation
