import KlteCommon.Computation.Paths

/-!
# What a thread cannot put off

`Ends E Q p` says that `p` gets in finitely many steps to an event in `E` or to its end with a
result in `Q`, whatever is answered. It holds of a sequence and of a call if it holds of the parts
(`Ends.bind`, `Ends.call`), and of procedures that call one another in one direction only if their
bodies say so (`ends_of_depth`). `Follows.ends` reads it off a protocol.
-/

set_option autoImplicit false

namespace KlteCommon.Computation

variable {Op Call : Type} {Resp : Op → Type} {Ret : Call → Type} {S α β : Type}

/-- All paths of `p` come to an event in `E`, or to the end with a result in `Q`. -/
inductive Ends (M : Machine Resp Ret) (atomic : Call → Bool) (E : Event Resp Ret → Prop)
    (Q : α → Prop) : Prog Resp Ret α → Prop
  | ret (a : α) (h : Q a) : Ends M atomic E Q (.ret a)
  | step (p : Prog Resp Ret α) (hp : p.finished = false)
      (h : ∀ e p', M.Next atomic p e p' → ¬ E e → Ends M atomic E Q p') : Ends M atomic E Q p

section

variable {M : Machine Resp Ret} {atomic : Call → Bool} {E : Event Resp Ret → Prop}
  {p : Prog Resp Ret α} {Q R : α → Prop}

/-- A weaker condition on the end. -/
theorem Ends.mono (h : ∀ a, Q a → R a) (hp : Ends M atomic E Q p) : Ends M atomic E R p := by
  induction hp with
  | ret a ha => exact .ret a (h a ha)
  | step p hp _ ih => exact .step p hp ih

/-- Stopping at more events. -/
theorem Ends.imp {E' : Event Resp Ret → Prop} (h : ∀ e, E e → E' e) (hp : Ends M atomic E Q p) :
    Ends M atomic E' Q p := by
  induction hp with
  | ret a ha => exact .ret a ha
  | step p hp _ ih => exact .step p hp fun e p' hn he => ih e p' hn fun hE => he (h e hE)

/-- An operation comes to what all its answers come to. -/
theorem Ends.op {o : Op} {k : Resp o → Prog Resp Ret α}
    (h : ∀ r, ¬ E (.op o r) → Ends M atomic E Q (k r)) : Ends M atomic E Q (.op o k) := by
  refine .step _ rfl fun e p' hn he => ?_
  cases hn
  exact h _ he

/-- The rule for a sequence. -/
theorem Ends.bind {f : α → Prog Resp Ret β} {Q : β → Prop} (hp : Ends M atomic E R p)
    (hf : ∀ a, R a → Ends M atomic E Q (f a)) : Ends M atomic E Q (p >>= f) := by
  induction hp with
  | ret a ha => exact hf a ha
  | step p hp _ ih =>
    cases p with
    | ret a => cases hp
    | op o k => exact .op fun r he => ih _ _ (.op o k r) he
    | call c k =>
      refine .step _ rfl fun e p' hn he => ?_
      cases hn with
      | done _ _ r hc => exact ih _ _ (.done c k r hc) he
      | enter _ _ hc =>
        have hassoc : (M.body c >>= fun r => k r >>= f) = (M.body c >>= k) >>= f := by
          induction M.body c with
          | ret a => rfl
          | op o k ih => exact congrArg (Prog.op o) (funext ih)
          | call c k ih => exact congrArg (Prog.call c) (funext ih)
        exact hassoc ▸ ih _ _ (.enter c k hc) he

/-- The rule for a call that is run step by step. -/
theorem Ends.call {c : Call} {k : Ret c → Prog Resp Ret α} {R : Ret c → Prop}
    (hc : atomic c = false) (hbody : Ends M atomic E R (M.body c))
    (hk : ∀ r, R r → Ends M atomic E Q (k r)) : Ends M atomic E Q (.call c k) := by
  refine .step _ rfl fun e p' hn _ => ?_
  cases hn with
  | done _ _ r hc' => cases hc.symm.trans hc'
  | enter => exact hbody.bind hk

/-- What comes to an event in `E` whenever it comes to its end does the former. -/
theorem Ends.next {e : Event Resp Ret} {p' : Prog Resp Ret α} (h : Ends M atomic E Q p)
    (hn : M.Next atomic p e p') (he : ¬ E e) : Ends M atomic E Q p' := by
  cases h with
  | ret => cases hn
  | step _ _ h => exact h e p' hn he

/-- What has not happened on the way is still to come. -/
theorem Ends.path {es : List (Event Resp Ret)} {p' : Prog Resp Ret α} (h : Ends M atomic E Q p)
    (hp : Path M atomic p es p') (hes : ∀ e ∈ es, ¬ E e) : Ends M atomic E Q p' := by
  induction hp with
  | nil => exact h
  | cons hn _ ih =>
    obtain ⟨he, hes⟩ := List.forall_mem_cons.mp hes
    exact ih (h.next hn he) hes

/-- An end read off a protocol: if only an event in `E` leads out of the stages in `D`, and the
calls made there come to such an event or come back there, the program does. -/
theorem Protocol.Follows.ends {P : Protocol Resp Ret S} {Q : α → S → Prop} {D : S → Prop} {x : S}
    (ha : ∀ x e, D x → ¬ E e → P.assume x e)
    (hD : ∀ x e y, D x → P.next x e = some y → ¬ E e → D y)
    (hcall : ∀ c x, atomic c = false → D x → P.pre c x →
      Ends M atomic E (fun r => ∃ y, P.post c x r y ∧ D y) (M.body c))
    (hp : P.Follows atomic p Q x) (hx : D x) :
    Ends M atomic E (fun a => ∃ y, Q a y ∧ D y) p := by
  induction p generalizing x with
  | ret a => exact .ret a ⟨x, hp, hx⟩
  | op o k ih =>
    refine .op fun r he => ?_
    obtain ⟨y, hy, hk⟩ := (hp r).next (ha x _ hx he)
    exact ih r hk (hD x _ y hx hy he)
  | call c k ih =>
    have h : P.callRule atomic c (fun r => P.Follows atomic (k r) Q) x := hp
    refine .step _ rfl fun e p' hn he => ?_
    cases hn with
    | done _ _ r hc =>
      rw [callRule, if_pos hc] at h
      obtain ⟨y, hy, hk⟩ := (h r).next (ha x _ hx he)
      exact ih r hk (hD x _ y hx hy he)
    | enter _ _ hc =>
      rw [callRule, if_neg (by simp [hc])] at h
      obtain ⟨y, hy, hpre, hpost⟩ := h.next (ha x _ hx he)
      have hxy := hD x _ y hx hy he
      refine (hcall c y hc hxy hpre).bind fun r hr => ?_
      obtain ⟨z, hz, hback⟩ := hr
      exact ih r (hpost r z hz) hback

end

/-- A program that keeps to a protocol keeps to one that demands less, stage for stage. -/
theorem Protocol.Follows.imp {S' : Type} {P : Protocol Resp Ret S} {P' : Protocol Resp Ret S'}
    {f : S → S'} (ha : ∀ x e, P.assume x e)
    (hn : ∀ x e y, P.next x e = some y → P'.next (f x) e = some (f y))
    (hpre : ∀ c x, P.pre c x → P'.pre c (f x))
    (hpost : ∀ c x r z, P'.post c (f x) r z → ∃ y, z = f y ∧ P.post c x r y)
    {atomic : Call → Bool} {p : Prog Resp Ret α} {Q : α → S' → Prop} {x : S}
    (hp : P.Follows atomic p (fun a y => Q a (f y)) x) : P'.Follows atomic p Q (f x) := by
  induction p generalizing x with
  | ret a => exact hp
  | op o k ih =>
    intro r
    obtain ⟨y, hy, hk⟩ := (hp r).next (ha x _)
    exact .intro (hn x _ y hy) (ih r hk)
  | call c k ih =>
    have h : P.callRule atomic c (fun r => P.Follows atomic (k r) fun a y => Q a (f y)) x := hp
    have goal : P'.callRule atomic c (fun r => P'.Follows atomic (k r) Q) (f x) := by
      unfold callRule at h ⊢
      split at h
      · rename_i hc
        rw [if_pos hc]
        intro r
        obtain ⟨y, hy, hk⟩ := (h r).next (ha x _)
        exact .intro (hn x _ y hy) (ih r hk)
      · rename_i hc
        rw [if_neg hc]
        obtain ⟨y, hy, hc, hk⟩ := h.next (ha x _)
        refine .intro (hn x _ y hy) ⟨hpre c y hc, fun r z hz => ?_⟩
        obtain ⟨w, rfl, hw⟩ := hpost c y r z hz
        exact ih r (hk r w hw)
    exact goal

/-! ## Procedures that call one another in one direction -/

/-- The protocol of a thread that until an event in `E` calls only procedures in `B`: its stage says
whether there was none yet. -/
@[reducible] def callsUntil (E : Event Resp Ret → Bool) (B : Call → Prop) :
    Protocol Resp Ret Bool where
  assume _ _ := True
  next x e := some (x && !E e)
  pre c x := x = true → B c
  post _ x _ y := y = x

variable {M : Machine Resp Ret} {atomic : Call → Bool} {E : Event Resp Ret → Bool}

/-- Calls of procedures that end, end. -/
theorem ends_of_callsUntil {B : Call → Prop} {p : Prog Resp Ret α}
    (hB : ∀ c, B c → Ends M atomic (E · = true) (fun _ => True) (M.body c))
    (hp : (callsUntil E B).Follows atomic p (fun _ _ => True) true) :
    Ends M atomic (E · = true) (fun _ => True) p := by
  refine (hp.ends (D := (· = true)) (fun _ _ _ _ => trivial) ?_ ?_ rfl).mono fun _ _ => trivial
  · rintro _ e y rfl hy he
    simp at hy
    simpa [he] using hy.symm
  · rintro c _ - rfl hc
    exact (hB c (hc rfl)).mono fun r _ => ⟨true, rfl, rfl⟩

/-- **Procedures end** that call only procedures of a smaller depth before an event in `E`. -/
theorem ends_of_depth {B : Call → Prop} {depth : Call → ℕ}
    (h : ∀ c, B c → (callsUntil E fun d => B d ∧ depth d < depth c).Follows atomic (M.body c)
      (fun _ _ => True) true) (c : Call) (hc : B c) :
    Ends M atomic (E · = true) (fun _ => True) (M.body c) := by
  induction hn : depth c using Nat.strongRecOn generalizing c with
  | ind n ih =>
    subst hn
    exact ends_of_callsUntil (fun d hd => ih _ hd.2 d hd.1 rfl) (h c hc)

end KlteCommon.Computation
