import KlteCommon.Computation.System

/-!
# A thread that runs alone

`Machine.Does` is the big-step reading of a program: run by one thread with nobody in between, it
performs these events, returns this and leaves this memory. Sequencing splits such a run in two
(`Machine.does_bind`), so what a function does is put together from what its parts do. A thread
that runs alone to its end is such a run (`Machine.does_of_solo`).
-/

set_option autoImplicit false

namespace KlteCommon.Computation

variable {Op Call : Type} {Resp : Op → Type} {Ret : Call → Type} {α β γ : Type}

/-- Sequencing is associative. -/
theorem Prog.bind_assoc (p : Prog Resp Ret α) (f : α → Prog Resp Ret β) (g : β → Prog Resp Ret γ) :
    p >>= f >>= g = p >>= fun a => f a >>= g := by
  induction p with
  | ret a => rfl
  | op o k ih => exact congrArg (Prog.op o) (funext ih)
  | call c k ih => exact congrArg (Prog.call c) (funext ih)

namespace Machine

/-- Thread `t` runs a program alone to its end. -/
inductive Does (M : Machine Resp Ret) (fin : Tid → Bool) (t : Tid) :
    Prog Resp Ret α → M.Mem → List (Event Resp Ret) → α → M.Mem → Prop
  | ret (a : α) (m : M.Mem) : Does M fin t (.ret a) m [] a m
  | op {o : Op} {k : Resp o → Prog Resp Ret α} {m m₁ m' : M.Mem} {es : List (Event Resp Ret)}
      {r : Resp o} {a : α} (ch : M.Choice) (h : M.act fin t o ch m = some (r, m₁))
      (hk : Does M fin t (k r) m₁ es a m') : Does M fin t (.op o k) m (.op o r :: es) a m'
  | call {c : Call} {k : Ret c → Prog Resp Ret α} {m m' : M.Mem} {es : List (Event Resp Ret)}
      {a : α} (h : Does M fin t (M.body c >>= k) m es a m') :
      Does M fin t (.call c k) m (.enter c :: es) a m'

variable {M : Machine Resp Ret} {fin : Tid → Bool} {t : Tid} {m m' : M.Mem}
  {es : List (Event Resp Ret)}

/-- A program that is done does nothing. -/
@[simp] theorem does_ret {a b : α} :
    M.Does fin t (.ret a) m es b m' ↔ es = [] ∧ b = a ∧ m' = m := by
  constructor
  · rintro ⟨⟩
    exact ⟨rfl, rfl, rfl⟩
  · rintro ⟨rfl, rfl, rfl⟩
    exact .ret _ _

/-- A program that is done does nothing. -/
@[simp] theorem does_pure {a b : α} :
    M.Does fin t (pure a) m es b m' ↔ es = [] ∧ b = a ∧ m' = m :=
  does_ret

/-- An operation, and what is done behind it. -/
theorem does_op {o : Op} {k : Resp o → Prog Resp Ret α} {a : α} :
    M.Does fin t (.op o k) m es a m' ↔ ∃ ch r m₁ es₁, M.act fin t o ch m = some (r, m₁) ∧
      M.Does fin t (k r) m₁ es₁ a m' ∧ es = .op o r :: es₁ := by
  constructor
  · rintro ⟨⟩
    exact ⟨_, _, _, _, ‹_›, ‹_›, rfl⟩
  · rintro ⟨ch, r, m₁, es₁, hact, hk, rfl⟩
    exact .op ch hact hk

/-- A call, and what is done in it and behind it. -/
theorem does_call {c : Call} {k : Ret c → Prog Resp Ret α} {a : α} :
    M.Does fin t (.call c k) m es a m' ↔ ∃ es₁, M.Does fin t (M.body c >>= k) m es₁ a m' ∧
      es = .enter c :: es₁ := by
  constructor
  · rintro ⟨⟩
    exact ⟨_, ‹_›, rfl⟩
  · rintro ⟨es₁, hk, rfl⟩
    exact .call hk

/-- One operation, and then `f`. -/
theorem does_perform {o : Op} {f : Resp o → Prog Resp Ret α} {a : α} :
    M.Does fin t (.perform o >>= f) m es a m' ↔ ∃ ch r m₁ es₁, M.act fin t o ch m = some (r, m₁) ∧
      M.Does fin t (f r) m₁ es₁ a m' ∧ es = .op o r :: es₁ :=
  does_op

/-- One program behind another. -/
theorem Does.bind {p : Prog Resp Ret α} {f : α → Prog Resp Ret β} {a : α} {b : β} {m₁ : M.Mem}
    {es₁ : List (Event Resp Ret)} (hp : M.Does fin t p m es a m₁)
    (hf : M.Does fin t (f a) m₁ es₁ b m') : M.Does fin t (p >>= f) m (es ++ es₁) b m' := by
  induction hp with
  | ret a m => exact hf
  | op ch h _ ih => exact .op ch h (ih hf)
  | call _ ih => exact .call (Prog.bind_assoc .. ▸ ih hf)

/-- **Sequencing.** -/
theorem does_bind {p : Prog Resp Ret α} {f : α → Prog Resp Ret β} {b : β} :
    M.Does fin t (p >>= f) m es b m' ↔ ∃ es₁ a m₁ es₂, M.Does fin t p m es₁ a m₁ ∧
      M.Does fin t (f a) m₁ es₂ b m' ∧ es = es₁ ++ es₂ := by
  constructor
  · intro h
    generalize hq : p >>= f = q at h
    have hnow : ∀ {q : Prog Resp Ret β} {m m' es} {a : α} {b : β}, Prog.ret a >>= f = q →
        M.Does fin t q m es b m' → ∃ es₁ a' m₁ es₂, M.Does fin t (.ret a) m es₁ a' m₁ ∧
          M.Does fin t (f a') m₁ es₂ b m' ∧ es = es₁ ++ es₂ := by
      rintro _ m m' es a b rfl h
      exact ⟨[], a, m, es, .ret a m, h, rfl⟩
    induction h generalizing p with
    | ret b m =>
      cases p with
      | ret a => exact hnow hq (.ret b m)
      | op o k => cases hq
      | call c k => cases hq
    | op ch hact hk ih =>
      cases p with
      | ret a => exact hnow hq (.op ch hact hk)
      | op o k =>
        cases hq
        obtain ⟨es₁, a, m₁, es₂, hp, hf, rfl⟩ := ih rfl
        exact ⟨_ :: es₁, a, m₁, es₂, .op ch hact hp, hf, rfl⟩
      | call c k => cases hq
    | call hk ih =>
      cases p with
      | ret a => exact hnow hq (.call hk)
      | op o k => cases hq
      | call c k =>
        cases hq
        obtain ⟨es₁, a, m₁, es₂, hp, hf, rfl⟩ := ih (Prog.bind_assoc ..)
        exact ⟨_ :: es₁, a, m₁, es₂, .call hp, hf, rfl⟩
  · rintro ⟨es₁, a, m₁, es₂, hp, hf, rfl⟩
    exact hp.bind hf

/-- A procedure call, and then `f`. -/
theorem does_invoke {c : Call} {f : Ret c → Prog Resp Ret α} {a : α} :
    M.Does fin t (.invoke c >>= f) m es a m' ↔ ∃ es₁ r m₁ es₂, M.Does fin t (M.body c) m es₁ r m₁ ∧
      M.Does fin t (f r) m₁ es₂ a m' ∧ es = .enter c :: (es₁ ++ es₂) := by
  constructor
  · intro h
    obtain ⟨es', hk, rfl⟩ := does_call.mp h
    obtain ⟨es₁, r, m₁, es₂, hbody, hf, rfl⟩ := does_bind.mp hk
    exact ⟨es₁, r, m₁, es₂, hbody, hf, rfl⟩
  · rintro ⟨es₁, r, m₁, es₂, hbody, hf, rfl⟩
    exact .call (hbody.bind hf)

/-- A thread that runs alone to its end. -/
theorem does_of_solo {chs : List M.Choice} {p : Prog Resp Ret α} {a : α}
    (h : M.solo fin t chs p m = some (es, .ret a, m')) : M.Does fin t p m es a m' := by
  induction chs generalizing p m es with
  | nil =>
    obtain ⟨rfl, rfl, rfl⟩ := by simpa [solo] using h
    exact .ret a _
  | cons ch chs ih =>
    cases p with
    | ret b => simp [solo, stepFine] at h
    | op o k =>
      cases hact : M.act fin t o ch m with
      | none => simp [solo, stepFine, hact] at h
      | some rm =>
        obtain ⟨r, m₁⟩ := rm
        simp only [solo, stepFine, hact, Option.map_some] at h
        split at h
        · cases h
        · rename_i hsolo
          obtain ⟨rfl, rfl, rfl⟩ := by simpa using h
          exact .op ch hact (ih hsolo)
    | call c k =>
      simp only [solo, stepFine] at h
      split at h
      · cases h
      · rename_i hsolo
        obtain ⟨rfl, rfl, rfl⟩ := by simpa using h
        exact .call (ih hsolo)

/-- A run of code of harmless operations and calls keeps what they keep. -/
theorem Does.within {A : Op → Prop} {B : Call → Prop} {I : M.Mem → Prop}
    (hB : ∀ c, B c → (M.body c).Within A B)
    (hI : ∀ o ch r m m₁, A o → I m → M.act fin t o ch m = some (r, m₁) → I m₁)
    {p : Prog Resp Ret α} {a : α} (h : M.Does fin t p m es a m') (hp : p.Within A B) (hm : I m) :
    I m' := by
  induction h with
  | ret a m => exact hm
  | op ch hact _ ih => exact ih (hp.2 _) (hI _ _ _ _ _ hp.1 hm hact)
  | call _ ih => exact ih ((hB _ hp.1).bind hp.2) hm

/-- There are choices for such a run. -/
theorem solo_of_does {p : Prog Resp Ret α} {a : α} (h : M.Does fin t p m es a m')
    [Nonempty M.Choice] : ∃ chs, M.solo fin t chs p m = some (es, .ret a, m') := by
  induction h with
  | ret a m => exact ⟨[], rfl⟩
  | op ch hact _ ih =>
    obtain ⟨chs, hsolo⟩ := ih
    exact ⟨ch :: chs, by simp [solo, stepFine, hact, hsolo]⟩
  | call _ ih =>
    obtain ⟨chs, hsolo⟩ := ih
    exact ⟨Classical.arbitrary _ :: chs, by simp [solo, stepFine, hsolo]⟩

end Machine

end KlteCommon.Computation
