import KlteCommon.Computation.Paths

/-!
# A thread amid others

`Amid` is a run of one piece of code while others change the memory between its steps as a relation
`R` allows, whoever they are. Its rule is `Amid.follows`: what ties the stages of a protocol to the
memory and is kept by `R` holds at every moment of such a run. A thread that runs alone is the case
in which nobody does anything (`Amid.solo`).
-/

set_option autoImplicit false

namespace KlteCommon.Computation

variable {Op Call : Type} {Resp : Op → Type} {Ret : Call → Type} {S α : Type}

/-- Thread `t` has done `es`, newest first, since it was to run `p₀` in memory `m₀`. Others change
the memory as `R` allows; the steps of the thread meet `ok`, which knows what it did before. -/
inductive Amid (M : Machine Resp Ret) (atomic : Call → Bool) (R : M.Mem → M.Mem → Prop)
    (ok : List (Event Resp Ret) → Event Resp Ret → Prop) (t : Tid) (p₀ : Prog Resp Ret α)
    (m₀ : M.Mem) : List (Event Resp Ret) → Prog Resp Ret α → M.Mem → Prop
  | start : Amid M atomic R ok t p₀ m₀ [] p₀ m₀
  | env {es : List (Event Resp Ret)} {p : Prog Resp Ret α} {m m' : M.Mem}
      (h : Amid M atomic R ok t p₀ m₀ es p m) (hR : R m m') : Amid M atomic R ok t p₀ m₀ es p m'
  | own {es : List (Event Resp Ret)} {p p' : Prog Resp Ret α} {m m' : M.Mem} {e : Event Resp Ret}
      {fin : Tid → Bool} (h : Amid M atomic R ok t p₀ m₀ es p m) (ho : ok es e)
      (hn : M.Next atomic p e p') (ha : M.Acts fin t e m m') :
      Amid M atomic R ok t p₀ m₀ (e :: es) p' m'

namespace Amid

variable {M : Machine Resp Ret} {atomic : Call → Bool} {R : M.Mem → M.Mem → Prop}
  {ok : List (Event Resp Ret) → Event Resp Ret → Prop} {t : Tid} {p₀ p q : Prog Resp Ret α}
  {m₀ m m' : M.Mem} {es : List (Event Resp Ret)}

/-- Every event met the condition where it happened. -/
theorem meets (h : Amid M atomic R ok t p₀ m₀ es p m) {e : Event Resp Ret}
    {earlier : List (Event Resp Ret)} (he : e :: earlier <:+ es) : ok earlier e := by
  induction h with
  | start => simp at he
  | env _ _ ih => exact ih he
  | own _ ho _ _ ih =>
    obtain he | he := List.suffix_cons_iff.mp he
    · cases he
      exact ho
    · exact ih he

/-- **The rule for a thread amid others.** `J` ties the stages to the memory; others keep it. -/
theorem follows {P : Protocol Resp Ret S} {J : S → M.Mem → Prop} {Q : α → S → Prop} {x₀ : S}
    (hV : P.Valid atomic M.body) (hR : ∀ x m m', J x m → R m m' → J x m')
    (hact : ∀ x es m e m' fin, J x m → ok es e → M.Acts fin t e m m' →
      P.assume x e ∧ ∀ y, P.next x e = some y → J y m')
    (hp : P.Follows atomic p₀ Q x₀) (hJ : J x₀ m₀) (h : Amid M atomic R ok t p₀ m₀ es p m) :
    ∃ y, P.stage x₀ es = some y ∧ P.Follows atomic p Q y ∧ J y m := by
  induction h with
  | start => exact ⟨x₀, rfl, hp, hJ⟩
  | env _ hm ih =>
    obtain ⟨y, hy, hq, hJy⟩ := ih
    exact ⟨y, hy, hq, hR _ _ _ hJy hm⟩
  | own _ ho hn ha ih =>
    obtain ⟨x, hx, hq, hJx⟩ := ih
    obtain ⟨hassume, hkeep⟩ := hact _ _ _ _ _ _ hJx ho ha
    obtain ⟨y, hy, hq'⟩ := hq.next hV hn hassume
    exact ⟨y, Protocol.stage_cons hx hy, hq', hkeep y hy⟩

/-- What a thread does alone, it does amid others that do nothing. -/
theorem solo (hatomic : ∀ c, atomic c = false) {fin : Tid → Bool} {chs : List M.Choice}
    {es' : List (Event Resp Ret)} (hok : ∀ es, ∀ e ∈ es', ok es e)
    (h : Amid M atomic R ok t p₀ m₀ es p m) (hs : M.solo fin t chs p m = some (es', q, m')) :
    Amid M atomic R ok t p₀ m₀ (es'.reverse ++ es) q m' := by
  induction chs generalizing p m es es' with
  | nil =>
    obtain ⟨rfl, rfl, rfl⟩ := by simpa [Machine.solo] using hs
    exact h
  | cons ch chs ih =>
    cases p with
    | ret b => simp [Machine.solo, Machine.stepFine] at hs
    | op o k =>
      cases hact : M.act fin t o ch m with
      | none => simp [Machine.solo, Machine.stepFine, hact] at hs
      | some rm =>
        obtain ⟨r, m₁⟩ := rm
        simp only [Machine.solo, Machine.stepFine, hact, Option.map_some] at hs
        split at hs
        · cases hs
        · rename_i hrest
          obtain ⟨rfl, rfl, rfl⟩ := by simpa using hs
          have hnow := hok es _ List.mem_cons_self
          simpa using ih (fun es e he => hok es e (List.mem_cons_of_mem _ he))
            (h.own hnow (.op o k r) ⟨ch, hact⟩) hrest
    | call c k =>
      simp only [Machine.solo, Machine.stepFine] at hs
      split at hs
      · cases hs
      · rename_i hrest
        obtain ⟨rfl, rfl, rfl⟩ := by simpa using hs
        have hnow := hok es _ List.mem_cons_self
        have hacts : M.Acts fin t (.enter c) m m := rfl
        have hnext := h.own hnow (.enter c k (hatomic c)) hacts
        simpa using ih (fun es e he => hok es e (List.mem_cons_of_mem _ he)) hnext hrest

end Amid

/-- Code of which the operations and calls are known, and of which the calls are made in `T` only,
is in `T` itself if its operations do not lead there. -/
theorem Protocol.Follows.settled {P : Protocol Resp Ret S} {atomic : Call → Bool} {A : Op → Prop}
    {B : Call → Prop} {T : S → Prop} {p : Prog Resp Ret α} {Q : α → S → Prop} {x : S}
    (hA : ∀ o x, A o → ∃ r, P.assume x (.op o r) ∧ ∀ y, P.next x (.op o r) = some y → T y → T x)
    (hB : ∀ c (Q : Ret c → S → Prop) x, B c → P.callRule atomic c Q x → T x)
    (hQ : ∀ a x, Q a x → T x) (hp : p.Within A B) (h : P.Follows atomic p Q x) : T x := by
  induction p generalizing x with
  | ret a => exact hQ a x h
  | op o k ih =>
    obtain ⟨r, hr, hback⟩ := hA o x hp.1
    obtain ⟨y, hy, hk⟩ := (h r).next hr
    exact hback y hy (ih r (hp.2 r) hk)
  | call c k _ => exact hB c _ x hp.1 h

end KlteCommon.Computation
