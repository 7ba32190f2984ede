import KlteCommon.Computation.Protocol

/-!
# One thread among bystanders

Often one thread keeps to a protocol and all the others do only harmless things: their operations
are in `A` and their calls in `B`, whatever they run. `State.Reaches.lone` is the induction rule
for the runs of such a system. Where `State.Reaches.staged` gives every thread a stage, here the
one thread has one and the others are only known to stay `Within A B`.
-/

set_option autoImplicit false

namespace KlteCommon.Computation

variable {Op Call : Type} {Resp : Op → Type} {Ret : Call → Type} {S α : Type}

variable {M : Machine Resp Ret} {atomic arrives : Call → Bool} {A : Op → Bool} {B : Call → Bool}

/-- A step of a program of operations in `A` and calls in `B` is one of these, and the program
stays one. -/
theorem Prog.Within.next (hB : ∀ c, B c = true → (M.body c).Within (A · = true) (B · = true))
    {p p' : Prog Resp Ret α} {e : Event Resp Ret} (hp : p.Within (A · = true) (B · = true))
    (hn : M.Next atomic p e p') :
    e.within A B = true ∧ p'.Within (A · = true) (B · = true) := by
  cases hn with
  | op o k r => exact ⟨hp.1, hp.2 r⟩
  | enter c k hc => exact ⟨hp.1, (hB c hp.1).bind hp.2⟩
  | done c k r hc => exact ⟨hp.1, hp.2 r⟩

/-- All threads but `w` are bystanders. -/
def Bystanders (A : Op → Bool) (B : Call → Bool) (w : Tid) (s : State M) : Prop :=
  ∀ t th, t ≠ w → s.pool t = some th → th.code.Within (A · = true) (B · = true)

/-- One more bystander arrives. -/
theorem Bystanders.arrive {w t : Tid} {c : Call} {s : State M} (h : Bystanders A B w s)
    (hc : B c = true) : Bystanders A B w (s.add t c) := by
  intro u th huw hu
  rw [State.pool_add] at hu
  split at hu
  · obtain rfl := Option.some.inj hu
    exact ⟨hc, fun _ => trivial⟩
  · exact h u th huw hu

/-- A step that creates no thread leaves the others bystanders. -/
theorem Bystanders.run (hB : ∀ c, B c = true → (M.body c).Within (A · = true) (B · = true))
    {w t : Tid} {s s' : State M} {e : Event Resp Ret} (h : Bystanders A B w s)
    (hr : s.Runs atomic t e s') (hb : M.born e = none) : Bystanders A B w s' := by
  intro u th huw hu
  by_cases hut : u = t
  · subst hut
    obtain ⟨th', -, -, hth', -⟩ := hr.moves
    obtain ⟨p, hn, hp⟩ := hr.code hth'
    obtain rfl := Option.some.inj (hp.symm.trans hu)
    exact ((h u th' huw hth').next hB hn).2
  · rw [hr.pool_of_not_born hb hut] at hu
    exact h u th huw hu

/-- **The rule for one thread among bystanders.** What holds at the start, survives arrivals and
is kept by thread `w` along its stages and by the harmless steps of the others holds, for the
stage `w` is in, in every state reached. -/
theorem State.Reaches.lone {P : Protocol Resp Ret S} {c : Call} {Q : Ret c → S → Prop} {w : Tid}
    {ok : State M → Tid → Event Resp Ret → Prop} {s₀ s : State M} {x₀ : S} (I : State M → S → Prop)
    (hV : P.Valid atomic M.body) (hstart : P.Follows atomic (.call c .ret) Q x₀)
    (hB : ∀ c, B c = true → (M.body c).Within (A · = true) (B · = true))
    (harr : ∀ c, arrives c = true → B c = true)
    (hbornA : ∀ e : Event Resp Ret, e.within A B = true → M.born e = none)
    (hbornP : ∀ x e y, P.next x e = some y → M.born e = none)
    (hpool : ∀ t, s₀.pool t = none) (h₀ : I (s₀.add w c) x₀)
    (harrive : ∀ s t c x, I s x → t ≠ w → I (s.add t c) x)
    (hassume : ∀ s e s' x, I s x → ok s w e → s.Runs atomic w e s' → P.assume x e)
    (hworker : ∀ s p e s' x y, s.pool w = some ⟨c, p⟩ → P.Follows atomic p Q x → I s x →
      ok s w e → s.Runs atomic w e s' → P.next x e = some y → I s' y)
    (hother : ∀ s p t e s' x, s.pool w = some ⟨c, p⟩ → P.Follows atomic p Q x → I s x → t ≠ w →
      ok s t e → s.Runs atomic t e s' → e.within A B = true → I s' x)
    (h : (s₀.add w c).Reaches atomic arrives ok s) :
    ∃ x p, s.pool w = some ⟨c, p⟩ ∧ P.Follows atomic p Q x ∧ I s x := by
  suffices hall : Bystanders A B w s ∧
      ∃ x p, s.pool w = some ⟨c, p⟩ ∧ P.Follows atomic p Q x ∧ I s x from hall.2
  refine h.invariant (I := fun s => Bystanders A B w s ∧
    ∃ x p, s.pool w = some ⟨c, p⟩ ∧ P.Follows atomic p Q x ∧ I s x) ?_ ?_ ?_
  · refine ⟨fun t th htw ht => ?_, x₀, .call c .ret, ?_, hstart, h₀⟩
    · rw [State.pool_add, if_neg htw, hpool] at ht
      cases ht
    · rw [State.pool_add, if_pos rfl]
      rfl
  · rintro s t d ⟨hby, x, p, hp, hx, hI⟩ hd ht
    have htw : t ≠ w := by
      rintro rfl
      simp [ht] at hp
    refine ⟨hby.arrive (harr d hd), x, p, ?_, hx, harrive s t d x hI htw⟩
    rw [State.pool_add, if_neg htw.symm, hp]
  · rintro s t e s' ⟨hby, x, p, hp, hx, hI⟩ hok hr
    by_cases htw : t = w
    · subst htw
      obtain ⟨p', hn, hp'⟩ := hr.code hp
      obtain ⟨y, hy, hx'⟩ := hx.next hV hn (hassume s e s' x hI hok hr)
      exact ⟨hby.run hB hr (hbornP x e y hy), y, p', hp', hx', hworker s p e s' x y hp hx hI hok hr hy⟩
    · obtain ⟨th, -, -, hth, -⟩ := hr.moves
      obtain ⟨p', hn, -⟩ := hr.code hth
      have hwithin := ((hby t th htw hth).next hB hn).1
      refine ⟨hby.run hB hr (hbornA e hwithin), x, p, ?_, hx,
        hother s p t e s' x hp hx hI htw hok hr hwithin⟩
      exact hr.pool_of_ne (Ne.symm htw) hp

end KlteCommon.Computation
