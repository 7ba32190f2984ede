import KlteCommon.Computation.Protocol

/-!
# What a thread may and must still do

A path of a program is a run of its code alone, whatever the memory answers. `Can E p` says that
some path of `p` gets to an event in `E`, `Will A E p` that every path of `p` to its end whose
events are in `A` does. Both are kept by steps of the code until the event happens, so they serve
as invariants; `Follows.will` and `Follows.can` read them off a protocol.

`Protocol.stage` is the stage some events lead to: those of a thread that runs alone
(`Follows.alone`), or those of one thread among others (`State.Reaches.follows`).
-/

set_option autoImplicit false

namespace KlteCommon.Computation

variable {Op Call : Type} {Resp : Op → Type} {Ret : Call → Type} {S α β : Type}

/-- `p` can do the events `es`, in this order, and has `q` left to run. -/
inductive Path (M : Machine Resp Ret) (atomic : Call → Bool) :
    Prog Resp Ret α → List (Event Resp Ret) → Prog Resp Ret α → Prop
  | nil (p : Prog Resp Ret α) : Path M atomic p [] p
  | cons {p p' q : Prog Resp Ret α} {e : Event Resp Ret} {es : List (Event Resp Ret)}
      (hn : M.Next atomic p e p') (hp : Path M atomic p' es q) : Path M atomic p (e :: es) q

/-- Some path of `p` has an event in `E`. -/
def Can (M : Machine Resp Ret) (atomic : Call → Bool) (E : Event Resp Ret → Prop)
    (p : Prog Resp Ret α) : Prop :=
  ∃ es q, Path M atomic p es q ∧ ∃ e ∈ es, E e

/-- Every path of `p` to its end with events in `A` only has an event in `E`. -/
def Will (M : Machine Resp Ret) (atomic : Call → Bool) (A E : Event Resp Ret → Prop)
    (p : Prog Resp Ret α) : Prop :=
  ∀ es a, Path M atomic p es (.ret a) → (∀ e ∈ es, A e) → ∃ e ∈ es, E e

variable {M : Machine Resp Ret} {atomic : Call → Bool} {A E : Event Resp Ret → Prop}
  {p p' : Prog Resp Ret α} {e : Event Resp Ret}

/-- Events determine what they leave of the code. -/
theorem next_unique {q q' : Prog Resp Ret α} (h : M.Next atomic p e q) (h' : M.Next atomic p e q') :
    q = q' := by
  cases h with
  | op o k r => cases h'; rfl
  | enter c k hc => cases h'; rfl
  | done c k r hc => cases h'; rfl

/-- The events of a path determine where it leads. -/
theorem Path.unique {q q' : Prog Resp Ret α} {es : List (Event Resp Ret)}
    (h : Path M atomic p es q) (h' : Path M atomic p es q') : q = q' := by
  induction h with
  | nil => cases h'; rfl
  | cons hn _ ih =>
    cases h' with
    | cons hn' hp' =>
      obtain rfl := next_unique hn hn'
      exact ih hp'

/-- A path in two parts. -/
theorem Path.append_iff {q : Prog Resp Ret α} {es es' : List (Event Resp Ret)} :
    Path M atomic p (es ++ es') q ↔ ∃ p', Path M atomic p es p' ∧ Path M atomic p' es' q := by
  constructor
  · intro h
    induction es generalizing p with
    | nil => exact ⟨p, .nil p, h⟩
    | cons e es ih =>
      cases h with
      | cons hn hp =>
        obtain ⟨p', hp', hq⟩ := ih hp
        exact ⟨p', .cons hn hp', hq⟩
  · rintro ⟨p', hp', hq⟩
    induction hp' with
    | nil => exact hq
    | cons hn _ ih => exact .cons hn (ih hq)

/-- Code that is sequenced with more goes the same way. -/
theorem Path.bind {q : Prog Resp Ret α} {es : List (Event Resp Ret)} (h : Path M atomic p es q)
    (f : α → Prog Resp Ret β) : Path M atomic (p >>= f) es (q >>= f) := by
  induction h with
  | nil => exact .nil _
  | cons hn _ ih =>
    refine .cons ?_ ih
    cases hn with
    | op o k r => exact .op o _ r
    | done c k r hc => exact .done c _ r hc
    | enter c k hc =>
      have hassoc : (M.body c >>= k) >>= f = M.body c >>= fun r => k r >>= f := by
        induction M.body c with
        | ret a => rfl
        | op o k ih => exact congrArg (Prog.op o) (funext ih)
        | call c k ih => exact congrArg (Prog.call c) (funext ih)
      rw [hassoc]
      exact .enter c _ hc

/-- Where a call that runs to its end begins, and where its result goes. -/
theorem Path.of_call {c : Call} {q : Prog Resp Ret α} {r : Ret c}
    {es : List (Event Resp Ret)} (hcall : Path M atomic (.call c .ret) es (.ret r))
    (h : Path M atomic p es q) : ∃ k, p = .call c k ∧ q = k r := by
  have hfirst : ∃ k, p = .call c k := by
    cases hcall with
    | cons hn _ =>
      cases h with
      | cons hn' _ =>
        cases hn with
        | enter _ _ _ => cases hn' with | enter _ k _ => exact ⟨k, rfl⟩
        | done _ _ _ _ => cases hn' with | done _ k _ _ => exact ⟨k, rfl⟩
  obtain ⟨k, rfl⟩ := hfirst
  exact ⟨k, rfl, h.unique (hcall.bind k)⟩

/-- What can happen after a step can happen before it. -/
theorem Can.of_next (hn : M.Next atomic p e p') (h : Can M atomic E p') : Can M atomic E p := by
  obtain ⟨es, q, hp, e', he', hE⟩ := h
  exact ⟨e :: es, q, .cons hn hp, e', List.mem_cons_of_mem _ he', hE⟩

/-- What can happen after some steps can happen before them. -/
theorem Can.of_path {es : List (Event Resp Ret)} (hp : Path M atomic p es p')
    (h : Can M atomic E p') : Can M atomic E p := by
  obtain ⟨es', q, hq, e, he, hE⟩ := h
  exact ⟨es ++ es', q, Path.append_iff.mpr ⟨p', hp, hq⟩, e, List.mem_append_right es he, hE⟩

/-- What happens next can happen. -/
theorem Can.now (hn : M.Next atomic p e p') (hE : E e) : Can M atomic E p :=
  ⟨[e], p', .cons hn (.nil _), e, List.mem_singleton_self e, hE⟩

/-- An operation can happen with any answer. -/
theorem Can.op {o : Op} {k : Resp o → Prog Resp Ret α} (r : Resp o)
    (h : E (.op o r) ∨ Can M atomic E (k r)) : Can M atomic E (.op o k) :=
  h.elim (.now (.op o k r)) (.of_next (.op o k r))

/-- A call that is one step can happen with any result. -/
theorem Can.done {c : Call} {k : Ret c → Prog Resp Ret α} (hc : atomic c = true) (r : Ret c)
    (h : E (.done c r)) : Can M atomic E (.call c k) :=
  .now (.done c k r hc) h

/-- What the body of a call can do, the call can do. -/
theorem Can.enter {c : Call} {k : Ret c → Prog Resp Ret α} (hc : atomic c = false)
    (h : Can M atomic E (M.body c >>= k)) : Can M atomic E (.call c k) :=
  h.of_next (.enter c k hc)

/-- What can happen happens now or can happen after some step. -/
theorem Can.cases (h : Can M atomic E p) :
    ∃ e p', M.Next atomic p e p' ∧ (E e ∨ Can M atomic E p') := by
  obtain ⟨es, q, hp, e, he, hE⟩ := h
  cases hp with
  | nil => cases he
  | @cons _ p' _ e' es hn hp =>
    obtain rfl | he := List.mem_cons.mp he
    · exact ⟨_, p', hn, .inl hE⟩
    · exact ⟨e', p', hn, .inr ⟨es, q, hp, e, he, hE⟩⟩

/-- What is bound to happen happens now or is still bound to happen. -/
theorem Will.next (h : Will M atomic A E p) (hn : M.Next atomic p e p') (hA : A e) :
    E e ∨ Will M atomic A E p' := by
  by_cases hE : E e
  · exact .inl hE
  · refine .inr fun es a hp hes => ?_
    obtain ⟨e', he', hE'⟩ := h (e :: es) a (.cons hn hp) (List.forall_mem_cons.mpr ⟨hA, hes⟩)
    obtain rfl | he' := List.mem_cons.mp he'
    · exact absurd hE' hE
    · exact ⟨e', he', hE'⟩

/-- What is bound to happen after the only step a program can take is bound to happen. -/
theorem Will.of_next (h : Will M atomic A E p')
    (hn : ∀ e q, M.Next atomic p e q → q = p') (hp : ¬ p.finished) : Will M atomic A E p := by
  intro es a hpath hes
  cases hpath with
  | nil => simp [Prog.finished] at hp
  | cons hn' hpath =>
    obtain rfl := hn _ _ hn'
    obtain ⟨e, he, hE⟩ := h _ _ hpath fun e he => hes e (List.mem_cons_of_mem _ he)
    exact ⟨e, List.mem_cons_of_mem _ he, hE⟩

/-- A program that has finished is bound to do nothing. -/
theorem Will.not_ret {a : α} : ¬ Will M atomic A E (.ret a : Prog Resp Ret α) := by
  intro h
  obtain ⟨e, he, -⟩ := h [] a (.nil _) (by simp)
  cases he

/-- A duty read off a protocol: if only an event in `E` leads out of the stages in `D`, and the
program does not end in one of them, then it is bound to do such an event. -/
theorem Protocol.Follows.will {P : Protocol Resp Ret S} {Q : α → S → Prop} {D : S → Prop} {x : S}
    (hV : P.Valid atomic M.body) (hA : ∀ x e, A e → P.assume x e)
    (hD : ∀ x e y, D x → P.next x e = some y → E e ∨ D y) (hQ : ∀ a y, Q a y → ¬ D y)
    (hp : P.Follows atomic p Q x) (hx : D x) : Will M atomic A E p := by
  intro es a hpath hes
  induction es generalizing p x with
  | nil =>
    cases hpath
    exact absurd hx (hQ a x hp)
  | cons e es ih =>
    cases hpath with
    | cons hn hpath =>
      obtain ⟨he, hes⟩ := List.forall_mem_cons.mp hes
      obtain ⟨y, hy, hp'⟩ := hp.next hV hn (hA x e he)
      obtain hE | hy := hD x e y hx hy
      · exact ⟨e, List.mem_cons_self, hE⟩
      · obtain ⟨e', he', hE⟩ := ih hp' hy hpath hes
        exact ⟨e', List.mem_cons_of_mem _ he', hE⟩

/-- A step read off a protocol: where an event in `E` is needed to leave the stages in `D`, and any
call made there can do one or else come back there, the program can do one. -/
theorem Protocol.Follows.can [∀ o, Nonempty (Resp o)] [∀ c, Nonempty (Ret c)]
    {P : Protocol Resp Ret S} {Q : α → S → Prop} {D : S → Prop} {x : S} (ha : ∀ x e, P.assume x e)
    (hD : ∀ x e y, D x → P.next x e = some y → E e ∨ D y)
    (hcall : ∀ c x, atomic c = false → D x → P.pre c x → Can M atomic E (.call c .ret) ∨
      ∃ es r y, Path M atomic (.call c .ret) es (.ret r) ∧ P.post c x r y ∧ D y)
    (hQ : ∀ a y, Q a y → ¬ D y) (hp : P.Follows atomic p Q x) (hx : D x) : Can M atomic E p := by
  induction p generalizing x with
  | ret a => exact absurd hx (hQ a x hp)
  | op o k ih =>
    obtain ⟨r⟩ : Nonempty (Resp o) := inferInstance
    obtain ⟨y, hy, hk⟩ := (hp r).next (ha x _)
    exact .op r ((hD x _ y hx hy).imp_right fun hy => ih r hk hy)
  | call c k ih =>
    have h : P.callRule atomic c (fun r => P.Follows atomic (k r) Q) x := hp
    cases hc : atomic c with
    | true =>
      rw [callRule, if_pos hc] at h
      obtain ⟨r⟩ : Nonempty (Ret c) := inferInstance
      obtain ⟨y, hy, hk⟩ := (h r).next (ha x _)
      have hn : M.Next atomic (.call c k) (.done c r) (k r) := .done c k r hc
      obtain hE | hy := hD x _ y hx hy
      · exact .now hn hE
      · exact (ih r hk hy).of_next hn
    | false =>
      rw [callRule, if_neg (by simp [hc])] at h
      obtain ⟨y, hy, hpre, hpost⟩ := h.next (ha x _)
      obtain hE | hy := hD x _ y hx hy
      · exact .now (.enter c k hc) hE
      obtain ⟨es, q, hpath, he⟩ | ⟨es, r, z, hpath, hz, hback⟩ := hcall c y hc hy hpre
      · exact ⟨es, _, hpath.bind k, he⟩
      · exact (ih r (hpost r z hz) hback).of_path (hpath.bind k)

/-! ## Stages along a log -/

/-- The stage after some events, newest first; `none` if one of them was forbidden. -/
def Protocol.stage (P : Protocol Resp Ret S) (x : S) : List (Event Resp Ret) → Option S
  | [] => some x
  | e :: es => (P.stage x es).bind (P.next · e)

/-- The stage after one more event, the newest first. -/
theorem Protocol.stage_cons {P : Protocol Resp Ret S} {x y z : S} {e : Event Resp Ret}
    {es : List (Event Resp Ret)} (h : P.stage x es = some y) (hz : P.next y e = some z) :
    P.stage x (e :: es) = some z := by
  simp [Protocol.stage, h, hz]

/-- An event that was not forbidden, and the stage it was met in. -/
theorem Protocol.stage_split {P : Protocol Resp Ret S} {x z : S} {e : Event Resp Ret}
    {es es' : List (Event Resp Ret)} (h : P.stage x (es ++ e :: es') = some z) :
    ∃ y y', P.stage x es' = some y ∧ P.next y e = some y' := by
  induction es generalizing z with
  | nil =>
    obtain ⟨y, hy, hz⟩ := Option.bind_eq_some_iff.mp h
    exact ⟨y, z, hy, hz⟩
  | cons e' es ih =>
    obtain ⟨y, hy, -⟩ := Option.bind_eq_some_iff.mp h
    exact ih hy

/-- The stage after one more event before the others. -/
theorem Protocol.stage_concat {P : Protocol Resp Ret S} {x y : S} {e : Event Resp Ret}
    {es : List (Event Resp Ret)} (h : P.next x e = some y) :
    P.stage x (es ++ [e]) = P.stage y es := by
  induction es with
  | nil => exact h
  | cons e' es ih => exact congrArg (Option.bind · _) ih

/-- **A thread that runs alone moves along the automaton.** `J` ties the stages to the memory, `X`
is what is assumed of every event. -/
theorem Protocol.Follows.alone {P : Protocol Resp Ret S} {J : S → M.Mem → Prop}
    {X : Event Resp Ret → Prop} {fin : Tid → Bool} {t : Tid} (hatomic : ∀ c, atomic c = false)
    (hV : P.Valid atomic M.body)
    (hop : ∀ x m o ch r m', J x m → M.act fin t o ch m = some (r, m') → X (.op o r) →
      P.assume x (.op o r) ∧ ∀ y, P.next x (.op o r) = some y → J y m')
    (henter : ∀ x m c, J x m →
      P.assume x (.enter c) ∧ ∀ y, P.next x (.enter c) = some y → J y m)
    {chs : List M.Choice} {p q : Prog Resp Ret α} {Q : α → S → Prop} {x : S} {m m' : M.Mem}
    {es : List (Event Resp Ret)} (hp : P.Follows atomic p Q x) (hJ : J x m)
    (hX : ∀ e ∈ es, X e) (h : M.solo fin t chs p m = some (es, q, m')) :
    ∃ y, P.stage x es.reverse = some y ∧ P.Follows atomic q Q y ∧ J y m' := by
  induction chs generalizing p x m es with
  | nil =>
    obtain ⟨rfl, rfl, rfl⟩ := by simpa [Machine.solo] using h
    exact ⟨x, rfl, hp, hJ⟩
  | cons ch chs ih =>
    cases p with
    | ret b => simp [Machine.solo, Machine.stepFine] at h
    | op o k =>
      cases hact : M.act fin t o ch m with
      | none => simp [Machine.solo, Machine.stepFine, hact] at h
      | some rm =>
        obtain ⟨r, m₁⟩ := rm
        simp only [Machine.solo, Machine.stepFine, hact, Option.map_some] at h
        split at h
        · cases h
        · rename_i hsolo
          obtain ⟨rfl, rfl, rfl⟩ := by simpa using h
          obtain ⟨hXe, hX⟩ := List.forall_mem_cons.mp hX
          obtain ⟨ha, hJ'⟩ := hop x m o ch r m₁ hJ hact hXe
          obtain ⟨y, hy, hk⟩ := (hp r).next ha
          obtain ⟨z, hz, hQ⟩ := ih hk (hJ' y hy) hX hsolo
          exact ⟨z, by rw [List.reverse_cons, stage_concat hy, hz], hQ⟩
    | call c k =>
      simp only [Machine.solo, Machine.stepFine] at h
      split at h
      · cases h
      · rename_i hsolo
        obtain ⟨rfl, rfl, rfl⟩ := by simpa using h
        obtain ⟨-, hX⟩ := List.forall_mem_cons.mp hX
        obtain ⟨ha, hJ'⟩ := henter x m c hJ
        obtain ⟨y, hy, hk⟩ := hp.next hV (.enter c k (hatomic c)) ha
        obtain ⟨z, hz, hQ⟩ := ih hk (hJ' y hy) hX hsolo
        exact ⟨z, by rw [List.reverse_cons, stage_concat hy, hz], hQ⟩

/-- Who has done something is in the pool. -/
theorem State.Reaches.own_eq_nil {arrives : Call → Bool}
    {ok : State M → Tid → Event Resp Ret → Prop} {s₀ s : State M} (hlog : s₀.log = [])
    (h : s₀.Reaches atomic arrives ok s) {t : Tid} (ht : s.pool t = none) : s.own t = [] := by
  refine h.invariant (I := fun s => ∀ t, s.pool t = none → s.own t = []) ?_ ?_ ?_ t ht
  · exact fun t _ => by simp [State.own, hlog]
  · intro s u c ih _ _ t ht
    rw [State.pool_add] at ht
    split at ht
    · cases ht
    · exact ih t ht
  · intro s u e s' ih _ hr t ht
    have htu : t ≠ u := by
      rintro rfl
      obtain ⟨th, -, -, hth, -⟩ := hr.moves
      obtain ⟨q, -, hq⟩ := hr.code hth
      simp [hq] at ht
    rw [hr.own, if_neg htu]
    cases hth : s.pool t with
    | none => exact ih t hth
    | some th => simp [hr.pool_of_ne htu hth] at ht

/-- The induction rule for one thread of a run: what holds of the call it was started with and is
kept by its own steps holds of what it has done and of the code that is left. -/
theorem State.Reaches.own_induct {arrives : Call → Bool} {c : Call}
    {ok : State M → Tid → Event Resp Ret → Prop}
    (I : List (Event Resp Ret) → Prog Resp Ret (Ret c) → Prop) (h₀ : I [] (.call c .ret))
    (hstep : ∀ s t e p p', s.pool t = some ⟨c, p⟩ → I (s.own t) p → ok s t e →
      M.Next atomic p e p' → I (e :: s.own t) p') {s₀ s : State M}
    (hpool : ∀ t, s₀.pool t = none) (hlog : s₀.log = []) (h : s₀.Reaches atomic arrives ok s)
    {t : Tid} {p : Prog Resp Ret (Ret c)} (ht : s.pool t = some ⟨c, p⟩) : I (s.own t) p := by
  suffices hI : ∀ t p, s.pool t = some ⟨c, p⟩ → I (s.own t) p from hI t p ht
  clear ht
  have hbegin : ∀ {d : Call} {p : Prog Resp Ret (Ret c)} {es : List (Event Resp Ret)},
      (.start d : Thread Resp Ret) = ⟨c, p⟩ → es = [] → I es p := by
    rintro d p _ ⟨⟩ rfl
    exact h₀
  induction h with
  | refl => exact fun t p ht => by simp [hpool] at ht
  | @arrive s u d h _ hp ih =>
    intro t p ht
    rw [State.pool_add] at ht
    split at ht
    · rename_i htu
      exact hbegin (Option.some.inj ht) (h.own_eq_nil hlog (htu ▸ hp))
    · exact ih t p ht
  | @run s s' u e h ho hr ih =>
    intro t p ht
    cases hth : s.pool t with
    | none =>
      -- the thread has just been created
      have hut : t ≠ u := by
        rintro rfl
        exact hr.mem_pool hth
      cases hb : M.born e with
      | none => simp [hr.pool_of_not_born hb hut, hth] at ht
      | some vd =>
        obtain ⟨v, d⟩ := vd
        by_cases htv : t = v
        · subst htv
          rw [hr.pool_born hb] at ht
          rw [hr.own, if_neg hut]
          exact hbegin (Option.some.inj ht) (h.own_eq_nil hlog hth)
        · obtain ⟨th', q, m, -, -, -, rfl⟩ := hr.moves
          simp [State.poolAfter, hb, htv, hut, hth] at ht
    | some th =>
      by_cases htu : t = u
      · subst htu
        obtain ⟨q, hn, hq⟩ := hr.code hth
        obtain ⟨d, p₀⟩ := th
        cases hq.symm.trans ht
        rw [hr.own, if_pos rfl]
        exact hstep s t e p₀ _ hth (ih t p₀ hth) ho hn
      · rw [hr.pool_of_ne htu hth] at ht
        rw [hr.own, if_neg htu]
        exact ih t p (hth.trans ht)

/-- What a thread has done is a path of the code it was started with, and every event of it was
permitted. -/
theorem State.Reaches.path {arrives : Call → Bool} {c : Call}
    {ok : State M → Tid → Event Resp Ret → Prop}
    (hok : ∀ s t e, s.entry t = some c → ok s t e → A e) {s₀ s : State M}
    (hpool : ∀ t, s₀.pool t = none) (hlog : s₀.log = []) (h : s₀.Reaches atomic arrives ok s)
    {t : Tid} {p : Prog Resp Ret (Ret c)} (ht : s.pool t = some ⟨c, p⟩) :
    Path M atomic (.call c .ret) (s.own t).reverse p ∧ ∀ e ∈ s.own t, A e := by
  refine h.own_induct (fun es p => Path M atomic (.call c .ret) es.reverse p ∧ ∀ e ∈ es, A e)
    ⟨.nil _, by simp⟩ ?_ hpool hlog ht
  rintro s t e p p' hp ⟨hpath, hA⟩ ho hn
  have ha := hok s t e (by rw [State.entry, hp]; rfl) ho
  rw [List.reverse_cons]
  exact ⟨Path.append_iff.mpr ⟨p, hpath, .cons hn (.nil _)⟩, List.forall_mem_cons.mpr ⟨ha, hA⟩⟩

/-- A path leads along the automaton. -/
theorem Protocol.Follows.path {P : Protocol Resp Ret S} {Q : α → S → Prop} {x : S}
    (hV : P.Valid atomic M.body) {q : Prog Resp Ret α} {es : List (Event Resp Ret)}
    (hA : ∀ y, ∀ e ∈ es, P.assume y e) (hpath : Path M atomic p es q)
    (hp : P.Follows atomic p Q x) :
    ∃ y, P.stage x es.reverse = some y ∧ P.Follows atomic q Q y := by
  induction hpath generalizing x with
  | nil => exact ⟨x, rfl, hp⟩
  | cons hn _ ih =>
    obtain ⟨y, hy, hp'⟩ := hp.next hV hn (hA x _ List.mem_cons_self)
    obtain ⟨z, hz, hq⟩ := ih (fun y e he => hA y e (List.mem_cons_of_mem _ he)) hp'
    exact ⟨z, by rw [List.reverse_cons, stage_concat hy, hz], hq⟩

/-- What a thread does is what its protocol allows when what the protocol relies on is granted in
every stage its events lead to. -/
theorem State.Reaches.follows_stage {arrives : Call → Bool} {P : Protocol Resp Ret S} {c : Call}
    {Q : Ret c → S → Prop} {x : S} (hV : P.Valid atomic M.body)
    (hstart : P.Follows atomic (.call c .ret) Q x) {ok : State M → Tid → Event Resp Ret → Prop}
    (hassume : ∀ s t e y, s.entry t = some c → P.stage x (s.own t) = some y → ok s t e →
      P.assume y e) {s₀ s : State M} (hpool : ∀ t, s₀.pool t = none) (hlog : s₀.log = [])
    (h : s₀.Reaches atomic arrives ok s) {t : Tid} {p : Prog Resp Ret (Ret c)}
    (ht : s.pool t = some ⟨c, p⟩) :
    ∃ y, P.stage x (s.own t) = some y ∧ P.Follows atomic p Q y := by
  refine h.own_induct (fun es p => ∃ y, P.stage x es = some y ∧ P.Follows atomic p Q y)
    ⟨x, rfl, hstart⟩ ?_ hpool hlog ht
  rintro s t e p p' hp ⟨y, hy, hfollows⟩ ho hn
  obtain ⟨z, hz, hfollows'⟩ :=
    hfollows.next hV hn (hassume s t e y (by rw [State.entry, hp]; rfl) hy ho)
  exact ⟨z, Protocol.stage_cons hy hz, hfollows'⟩

/-- **What a thread does is what its protocol allows**, whatever the other threads do: in every
run from a state without threads, the events of a thread started with `c` lead along the
automaton, and the code that is left keeps to the protocol from where they lead. -/
theorem State.Reaches.follows {arrives : Call → Bool} {P : Protocol Resp Ret S} {c : Call}
    {Q : Ret c → S → Prop} {x : S} (hV : P.Valid atomic M.body)
    (hstart : P.Follows atomic (.call c .ret) Q x) (hA : ∀ y e, A e → P.assume y e)
    {ok : State M → Tid → Event Resp Ret → Prop}
    (hok : ∀ s t e, s.entry t = some c → ok s t e → A e) {s₀ s : State M}
    (hpool : ∀ t, s₀.pool t = none) (hlog : s₀.log = []) (h : s₀.Reaches atomic arrives ok s)
    {t : Tid} {p : Prog Resp Ret (Ret c)} (ht : s.pool t = some ⟨c, p⟩) :
    ∃ y, P.stage x (s.own t) = some y ∧ P.Follows atomic p Q y :=
  h.follows_stage hV hstart (fun s t e y ht _ ho => hA y e (hok s t e ht ho)) hpool hlog ht

/-- What a thread has gone on to do, it could do. -/
theorem State.Reaches.can {arrives : Call → Bool} {c : Call}
    {ok : State M → Tid → Event Resp Ret → Prop} {s₀ s s' : State M} (hpool : ∀ t, s₀.pool t = none)
    (hlog : s₀.log = []) (h : s₀.Reaches atomic arrives ok s) (h' : s₀.Reaches atomic arrives ok s')
    {t : Tid} {p p' : Prog Resp Ret (Ret c)} (ht : s.pool t = some ⟨c, p⟩)
    (ht' : s'.pool t = some ⟨c, p'⟩) {es : List (Event Resp Ret)} (hown : s'.own t = es ++ s.own t)
    (he : ∃ e ∈ es, E e) : Can M atomic E p := by
  obtain ⟨hpath, -⟩ := h.path (A := fun _ => True) (fun _ _ _ _ _ => trivial) hpool hlog ht
  obtain ⟨hpath', -⟩ := h'.path (A := fun _ => True) (fun _ _ _ _ _ => trivial) hpool hlog ht'
  rw [hown, List.reverse_append] at hpath'
  obtain ⟨q, hq, hrest⟩ := Path.append_iff.mp hpath'
  obtain rfl := hpath.unique hq
  obtain ⟨e, hmem, hE⟩ := he
  exact ⟨es.reverse, p', hrest, e, List.mem_reverse.mpr hmem, hE⟩

/-- A step of a thread is one that its protocol allows where the thread is. -/
theorem State.Reaches.next_of_runs {arrives : Call → Bool} {P : Protocol Resp Ret S} {c : Call}
    {Q : Ret c → S → Prop} {x : S} (hV : P.Valid atomic M.body)
    (hstart : P.Follows atomic (.call c .ret) Q x) (hA : ∀ y e, A e → P.assume y e)
    {ok : State M → Tid → Event Resp Ret → Prop}
    (hok : ∀ s t e, s.entry t = some c → ok s t e → A e) {s₀ s s' : State M}
    (hpool : ∀ t, s₀.pool t = none) (hlog : s₀.log = []) (h : s₀.Reaches atomic arrives ok s)
    {t : Tid} (ht : s.entry t = some c) {e : Event Resp Ret} (ho : ok s t e)
    (hr : s.Runs atomic t e s') :
    ∃ y z, P.stage x (s.own t) = some y ∧ P.next y e = some z := by
  obtain ⟨⟨d, p⟩, hp, rfl⟩ := Option.map_eq_some_iff.mp ht
  obtain ⟨y, hy, hfollows⟩ := h.follows hV hstart hA hok hpool hlog hp
  obtain ⟨q, hn, -⟩ := hr.code hp
  obtain ⟨z, hz, -⟩ := hfollows.next hV hn (hA y e (hok s t e ht ho))
  exact ⟨y, z, hy, hz⟩

/-- What a thread has done by some point of the log. -/
def eventsOf (t : Tid) (log : List (Tid × Event Resp Ret)) : List (Event Resp Ret) :=
  log.filterMap fun te => if te.1 = t then some te.2 else none

/-- An event of a thread, or of another one. -/
theorem eventsOf_cons (t : Tid) (te : Tid × Event Resp Ret) (log : List (Tid × Event Resp Ret)) :
    eventsOf t (te :: log) = if te.1 = t then te.2 :: eventsOf t log else eventsOf t log := by
  unfold eventsOf
  rw [List.filterMap_cons]
  split <;> simp_all

/-- An event a thread has done, found in the log. -/
theorem eventsOf_split {t : Tid} {log : List (Tid × Event Resp Ret)} {es es' : List (Event Resp Ret)}
    {e : Event Resp Ret} (h : eventsOf t log = es ++ e :: es') :
    ∃ later earlier, log = later ++ (t, e) :: earlier ∧ eventsOf t later = es ∧
      eventsOf t earlier = es' := by
  obtain ⟨later, rest, rfl, hlater, hrest⟩ := List.filterMap_eq_append_iff.mp h
  obtain ⟨between, ⟨u, e'⟩, earlier, rfl, hbetween, he, hearlier⟩ :=
    List.filterMap_eq_cons_iff.mp hrest
  obtain ⟨rfl, rfl⟩ : u = t ∧ e' = e := by simpa using he
  refine ⟨later ++ between, earlier, by simp, ?_, hearlier⟩
  have hnone : eventsOf u between = [] := List.filterMap_eq_nil_iff.mpr hbetween
  rw [eventsOf, List.filterMap_append]
  exact (congrArg₂ (· ++ ·) hlater hnone).trans (List.append_nil es)

/-- The moment an event of the log happened. -/
theorem State.Reaches.moment {arrives : Call → Bool}
    {ok : State M → Tid → Event Resp Ret → Prop} {s₀ s : State M} (hlog : s₀.log = [])
    (h : s₀.Reaches atomic arrives ok s) {t : Tid} {e : Event Resp Ret}
    {earlier : List (Tid × Event Resp Ret)} (he : (t, e) :: earlier <:+ s.log) :
    ∃ s₁ s₂, s₀.Reaches atomic arrives ok s₁ ∧ s₁.log = earlier ∧ ok s₁ t e ∧
      s₁.Runs atomic t e s₂ := by
  induction h with
  | refl =>
    rw [hlog] at he
    cases List.suffix_nil.mp he
  | arrive _ _ _ ih => exact ih he
  | @run s s' u d h ho hr ih =>
    rw [hr.log] at he
    obtain he | he := List.suffix_cons_iff.mp he
    · cases he
      exact ⟨s, s', h, rfl, ho, hr⟩
    · exact ih he

/-- The thread of an event of the log is in the pool. -/
theorem State.Reaches.entry_of_log {arrives : Call → Bool}
    {ok : State M → Tid → Event Resp Ret → Prop} {s₀ s : State M} (hlog : s₀.log = [])
    (h : s₀.Reaches atomic arrives ok s) {t : Tid} {e : Event Resp Ret} (he : (t, e) ∈ s.log) :
    ∃ c, s.entry t = some c := by
  cases hth : s.pool t with
  | some th => exact ⟨th.entry, by rw [State.entry, hth]; rfl⟩
  | none =>
    have hmem : e ∈ s.own t := List.mem_filterMap.mpr ⟨(t, e), he, if_pos rfl⟩
    rw [h.own_eq_nil hlog hth] at hmem
    cases hmem

/-- An event of the log is one that the protocol of its thread allowed where the thread was. -/
theorem State.Reaches.next_at {arrives : Call → Bool} {P : Protocol Resp Ret S} {c : Call}
    {Q : Ret c → S → Prop} {x : S} (hV : P.Valid atomic M.body)
    (hstart : P.Follows atomic (.call c .ret) Q x) (hA : ∀ y e, A e → P.assume y e)
    {ok : State M → Tid → Event Resp Ret → Prop}
    (hok : ∀ s t e, s.entry t = some c → ok s t e → A e) {s₀ s : State M}
    (hpool : ∀ t, s₀.pool t = none) (hlog : s₀.log = []) (h : s₀.Reaches atomic arrives ok s)
    {t : Tid} (ht : s.entry t = some c) {e : Event Resp Ret}
    {later earlier : List (Tid × Event Resp Ret)} (he : s.log = later ++ (t, e) :: earlier) :
    ∃ y z, P.stage x (eventsOf t earlier) = some y ∧ P.next y e = some z := by
  obtain ⟨⟨d, p⟩, hp, rfl⟩ := Option.map_eq_some_iff.mp ht
  obtain ⟨y, hy, -⟩ := h.follows hV hstart hA hok hpool hlog hp
  have hown : s.own t = eventsOf t later ++ e :: eventsOf t earlier := by
    simp [State.own, eventsOf, he]
  rw [hown] at hy
  exact Protocol.stage_split hy

end KlteCommon.Computation
