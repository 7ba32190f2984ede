import Mathlib.Data.Nat.Notation
import Mathlib.Logic.Function.Basic

/-!
# Thread programs

The code of one thread is a tree of the operations it performs on shared state and of the
procedures it calls. A procedure is only named in the tree, so a loop or a recursion of the
source is a procedure whose body calls itself, and every tree stays finite.

`Prog.wp` folds what one operation and one call are known to do over the tree. The interleaving
semantics (`System`) and the stage protocols (`Protocol`) are two readings of the same fold.
-/

set_option autoImplicit false

namespace KlteCommon.Computation

variable {Op Call : Type} {Resp : Op → Type} {Ret : Call → Type} {α β : Type}

/-- The code a thread has still to run: it is finished, performs an operation and goes on with
the response, or calls a procedure and goes on with its result. -/
inductive Prog (Resp : Op → Type) (Ret : Call → Type) (α : Type) : Type
  | ret (a : α) : Prog Resp Ret α
  | op (o : Op) (k : Resp o → Prog Resp Ret α) : Prog Resp Ret α
  | call (c : Call) (k : Ret c → Prog Resp Ret α) : Prog Resp Ret α

/-- What a thread can be seen to do. `enter` is the call of a procedure whose body is then run
step by step, `done` a call that was executed as one atomic step. -/
inductive Event (Resp : Op → Type) (Ret : Call → Type) : Type
  | op (o : Op) (r : Resp o)
  | enter (c : Call)
  | done (c : Call) (r : Ret c)

/-- Whether an event is an operation in `A` or a call in `B`. -/
@[reducible] def Event.within (A : Op → Bool) (B : Call → Bool) : Event Resp Ret → Bool
  | .op o _ => A o
  | .enter c | .done c _ => B c

namespace Prog

/-- Sequencing: run `p`, then `f` on its result. -/
def bind : Prog Resp Ret α → (α → Prog Resp Ret β) → Prog Resp Ret β
  | .ret a, f => f a
  | .op o k, f => .op o fun r => (k r).bind f
  | .call c k, f => .call c fun r => (k r).bind f

instance : Monad (Prog Resp Ret) where
  pure := .ret
  bind := bind

/-- One operation, as a program. -/
def perform (o : Op) : Prog Resp Ret (Resp o) := .op o .ret

/-- One procedure call, as a program. -/
def invoke (c : Call) : Prog Resp Ret (Ret c) := .call c .ret

/-- Both ways to be done. -/
theorem pure_eq_ret (a : α) : (pure a : Prog Resp Ret α) = .ret a := rfl

/-- Going on after being done. -/
@[simp] theorem ret_bind (a : α) (f : α → Prog Resp Ret β) :
    (Prog.ret a >>= f) = f a := rfl

/-- Going on after an operation. -/
@[simp] theorem op_bind (o : Op) (k : Resp o → Prog Resp Ret α) (f : α → Prog Resp Ret β) :
    (Prog.op o k >>= f) = .op o fun r => k r >>= f := rfl

/-- Going on after a call. -/
@[simp] theorem call_bind (c : Call) (k : Ret c → Prog Resp Ret α) (f : α → Prog Resp Ret β) :
    (Prog.call c k >>= f) = .call c fun r => k r >>= f := rfl

/-- Returning the result of a program unchanged does nothing. -/
theorem bind_ret (p : Prog Resp Ret α) : (p >>= fun a => .ret a) = p := by
  induction p with
  | ret a => rfl
  | op o k ih => exact congrArg (Prog.op o) (funext ih)
  | call c k ih => exact congrArg (Prog.call c) (funext ih)

/-- Whether the program has finished. -/
def finished : Prog Resp Ret α → Bool
  | .ret _ => true
  | _ => false

/-! ## Weakest preconditions -/

section wp

variable {S : Type}

/-- The states from which `p` is known to end with `Q`, given what is known of one operation
(`Φ`) and of one call (`Γ`). -/
def wp (Φ : (o : Op) → (Resp o → S → Prop) → S → Prop)
    (Γ : (c : Call) → (Ret c → S → Prop) → S → Prop) :
    Prog Resp Ret α → (α → S → Prop) → S → Prop
  | .ret a, Q => Q a
  | .op o k, Q => Φ o fun r => (k r).wp Φ Γ Q
  | .call c k, Q => Γ c fun r => (k r).wp Φ Γ Q

variable {Φ : (o : Op) → (Resp o → S → Prop) → S → Prop}
  {Γ : (c : Call) → (Ret c → S → Prop) → S → Prop}

/-- The condition for a program that is done. -/
@[simp] theorem wp_ret (a : α) (Q : α → S → Prop) (x : S) :
    wp Φ Γ (.ret a : Prog Resp Ret α) Q x = Q a x := rfl

/-- The condition for a program that is done. -/
@[simp] theorem wp_pure (a : α) (Q : α → S → Prop) (x : S) :
    wp Φ Γ (pure a : Prog Resp Ret α) Q x = Q a x := rfl

/-- The condition for an operation. -/
theorem wp_op (o : Op) (k : Resp o → Prog Resp Ret α) (Q : α → S → Prop) (x : S) :
    wp Φ Γ (.op o k) Q x = Φ o (fun r => wp Φ Γ (k r) Q) x := rfl

/-- The condition for a call. -/
theorem wp_call (c : Call) (k : Ret c → Prog Resp Ret α) (Q : α → S → Prop) (x : S) :
    wp Φ Γ (.call c k) Q x = Γ c (fun r => wp Φ Γ (k r) Q) x := rfl

/-- The condition for one operation. -/
@[simp] theorem wp_perform (o : Op) (Q : Resp o → S → Prop) (x : S) :
    wp Φ Γ (perform o : Prog Resp Ret (Resp o)) Q x = Φ o Q x := rfl

/-- The condition for one call. -/
@[simp] theorem wp_invoke (c : Call) (Q : Ret c → S → Prop) (x : S) :
    wp Φ Γ (invoke c : Prog Resp Ret (Ret c)) Q x = Γ c Q x := rfl

/-- The sequencing rule. -/
@[simp] theorem wp_bind (p : Prog Resp Ret α) (f : α → Prog Resp Ret β) (Q : β → S → Prop) :
    wp Φ Γ (p >>= f) Q = wp Φ Γ p fun a => wp Φ Γ (f a) Q := by
  induction p with
  | ret a => rfl
  | op o k ih => exact congrArg (Φ o) (funext ih)
  | call c k ih => exact congrArg (Γ c) (funext ih)

/-- The condition for a result that is mapped. -/
@[simp] theorem wp_map (g : α → β) (p : Prog Resp Ret α) (Q : β → S → Prop) :
    wp Φ Γ (g <$> p) Q = wp Φ Γ p fun a => Q (g a) :=
  wp_bind p (fun a => .ret (g a)) Q

/-- The condition for a branch. -/
@[simp] theorem wp_ite (c : Prop) [Decidable c] (p q : Prog Resp Ret α) (Q : α → S → Prop)
    (x : S) :
    wp Φ Γ (if c then p else q) Q x = if c then wp Φ Γ p Q x else wp Φ Γ q Q x := by
  split <;> rfl

/-- The consequence rule. -/
theorem wp_mono (hΦ : ∀ o (Q Q' : Resp o → S → Prop) x, (∀ r y, Q r y → Q' r y) →
      Φ o Q x → Φ o Q' x)
    (hΓ : ∀ c (Q Q' : Ret c → S → Prop) x, (∀ r y, Q r y → Q' r y) → Γ c Q x → Γ c Q' x)
    {p : Prog Resp Ret α} {Q Q' : α → S → Prop} {x : S} (h : ∀ a y, Q a y → Q' a y)
    (hp : wp Φ Γ p Q x) : wp Φ Γ p Q' x := by
  induction p generalizing x with
  | ret a => exact h a x hp
  | op o k ih => exact hΦ o _ _ x (fun r y => ih r) hp
  | call c k ih => exact hΓ c _ _ x (fun r y => ih r) hp

end wp

/-! ## What a tree is made of -/

/-- Every operation in the tree is in `A` and every call in `B`, whatever the responses are. -/
def Within (A : Op → Prop) (B : Call → Prop) (p : Prog Resp Ret α) : Prop :=
  p.wp (fun o Q (x : Unit) => A o ∧ ∀ r, Q r x) (fun c Q x => B c ∧ ∀ r, Q r x)
    (fun _ _ => True) ()

section within

variable {A A' : Op → Prop} {B B' : Call → Prop}

/-- A program that is done keeps to every list. -/
@[simp] theorem within_ret (a : α) : (Prog.ret a : Prog Resp Ret α).Within A B := trivial

/-- A program that is done keeps to every list. -/
@[simp] theorem within_pure (a : α) : (pure a : Prog Resp Ret α).Within A B := trivial

/-- An operation on the list. -/
@[simp] theorem within_op (o : Op) (k : Resp o → Prog Resp Ret α) :
    (Prog.op o k).Within A B ↔ A o ∧ ∀ r, (k r).Within A B := Iff.rfl

/-- A call on the list. -/
@[simp] theorem within_call (c : Call) (k : Ret c → Prog Resp Ret α) :
    (Prog.call c k).Within A B ↔ B c ∧ ∀ r, (k r).Within A B := Iff.rfl

/-- One operation. -/
@[simp] theorem within_perform (o : Op) :
    (perform o : Prog Resp Ret (Resp o)).Within A B ↔ A o := by
  simp [perform]

/-- One call. -/
@[simp] theorem within_invoke (c : Call) :
    (invoke c : Prog Resp Ret (Ret c)).Within A B ↔ B c := by
  simp [invoke]

/-- One program behind another. -/
theorem Within.bind {p : Prog Resp Ret α} {f : α → Prog Resp Ret β} (hp : p.Within A B)
    (hf : ∀ a, (f a).Within A B) : (p >>= f).Within A B := by
  induction p with
  | ret a => exact hf a
  | op o k ih => exact ⟨hp.1, fun r => ih r (hp.2 r)⟩
  | call c k ih => exact ⟨hp.1, fun r => ih r (hp.2 r)⟩

/-- Longer lists. -/
theorem Within.mono {p : Prog Resp Ret α} (hp : p.Within A B) (hA : ∀ o, A o → A' o)
    (hB : ∀ c, B c → B' c) : p.Within A' B' := by
  induction p with
  | ret a => trivial
  | op o k ih => exact ⟨hA o hp.1, fun r => ih r (hp.2 r)⟩
  | call c k ih => exact ⟨hB c hp.1, fun r => ih r (hp.2 r)⟩

/-- Two branches. -/
theorem Within.ite {c : Prop} [Decidable c] {p q : Prog Resp Ret α} (hp : p.Within A B)
    (hq : q.Within A B) : (if c then p else q).Within A B := by
  split <;> assumption

end within

/-! ## How long a tree is -/

/-- `p` calls nothing and performs at most `n` operations, all of them in `A`, whatever the
responses are. -/
def AtMost (A : Op → Prop) : ℕ → Prog Resp Ret α → Prop
  | _, .ret _ => True
  | n + 1, .op o k => A o ∧ ∀ r, AtMost A n (k r)
  | _, _ => False

section atMost

variable {A : Op → Prop} {n n' : ℕ}

/-- A program that is done performs nothing. -/
@[simp] theorem atMost_ret (a : α) : (Prog.ret a : Prog Resp Ret α).AtMost A n := by
  cases n <;> trivial

/-- A program that is done performs nothing. -/
@[simp] theorem atMost_pure (a : α) : (pure a : Prog Resp Ret α).AtMost A n := atMost_ret a

/-- One operation. -/
@[simp] theorem atMost_perform (o : Op) :
    (perform o : Prog Resp Ret (Resp o)).AtMost A 1 ↔ A o := by
  simp [perform, AtMost]

/-- A larger number. -/
theorem AtMost.mono {p : Prog Resp Ret α} (hp : p.AtMost A n) (hn : n ≤ n') : p.AtMost A n' := by
  induction p generalizing n n' with
  | ret a => simp
  | op o k ih =>
    obtain _ | n := n
    · exact hp.elim
    obtain _ | n' := n'
    · omega
    exact ⟨hp.1, fun r => ih r (hp.2 r) (by omega)⟩
  | call c k _ => cases n <;> exact hp.elim

/-- What it is made of. -/
theorem AtMost.within {p : Prog Resp Ret α} (hp : p.AtMost A n) : p.Within A fun _ => False := by
  induction p generalizing n with
  | ret a => trivial
  | op o k ih =>
    obtain _ | n := n
    · exact hp.elim
    exact ⟨hp.1, fun r => ih r (hp.2 r)⟩
  | call c k _ => cases n <;> exact hp.elim

/-- One program behind another. -/
theorem AtMost.bind {p : Prog Resp Ret α} {f : α → Prog Resp Ret β} (hp : p.AtMost A n)
    (hf : ∀ a, (f a).AtMost A n') : (p >>= f).AtMost A (n + n') := by
  induction p generalizing n with
  | ret a => exact (hf a).mono (by omega)
  | op o k ih =>
    obtain _ | n := n
    · exact hp.elim
    rw [show n + 1 + n' = n + n' + 1 by omega]
    exact ⟨hp.1, fun r => ih r (hp.2 r)⟩
  | call c k _ => cases n <;> exact hp.elim

/-- Two branches. -/
theorem AtMost.ite {c : Prop} [Decidable c] {p q : Prog Resp Ret α} (hp : p.AtMost A n)
    (hq : q.AtMost A n) : (if c then p else q).AtMost A n := by
  split <;> assumption

end atMost

end Prog

end KlteCommon.Computation
