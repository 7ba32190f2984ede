import Mathlib.Data.Fintype.Card

/-!
# A vault with groups

A vault keeps values under keys, for each group its own, and shows those of one group, the active
one. Putting a value and dropping keys concern the active group only, and selecting a group changes
no value: so what a group has is as it was left, whatever is done while others are active
(`Vault.kept_put`, `Vault.kept_drop`).
-/

set_option autoImplicit false

namespace KlteCommon.Standard

/-- Values under keys, for each group, and the group that is shown. -/
@[ext] structure Vault (G K V : Type) where
  active : G
  kept : G → K → Option V

namespace Vault

variable {G K V : Type}

/-- What the active group has. -/
def shown (v : Vault G K V) : K → Option V := v.kept v.active

/-- Showing another group. -/
def select (v : Vault G K V) (g : G) : Vault G K V := { v with active := g }

/-- The group that was selected is active. -/
@[simp] theorem select_active (v : Vault G K V) (g : G) : (v.select g).active = g := rfl

/-- Selecting changes no value. -/
@[simp] theorem select_kept (v : Vault G K V) (g : G) : (v.select g).kept = v.kept := rfl

variable [DecidableEq G]

/-- Changing what the active group has. -/
def change (v : Vault G K V) (f : K → Option V) : Vault G K V :=
  { v with kept := Function.update v.kept v.active f }

/-- A value for a key of the active group. -/
def put [DecidableEq K] (v : Vault G K V) (k : K) (x : V) : Vault G K V :=
  v.change (Function.update v.shown k (some x))

/-- The active group without some keys. -/
def drop (v : Vault G K V) (A : K → Prop) [DecidablePred A] : Vault G K V :=
  v.change fun k => if A k then none else v.shown k

/-- How many keys of the active group have a value. -/
def size [Fintype K] (v : Vault G K V) : ℕ :=
  (Finset.univ.filter fun k => (v.shown k).isSome).card

variable (v : Vault G K V) (f : K → Option V)

/-- A change leaves the active group active. -/
@[simp] theorem change_active : (v.change f).active = v.active := rfl

/-- What was changed is shown. -/
@[simp] theorem change_shown : (v.change f).shown = f := Function.update_self ..

/-- The other groups are left alone. -/
theorem change_kept {g : G} (h : g ≠ v.active) : (v.change f).kept g = v.kept g :=
  Function.update_of_ne h ..

/-- Putting a value leaves the active group active. -/
@[simp] theorem put_active [DecidableEq K] (k : K) (x : V) : (v.put k x).active = v.active := rfl

/-- So does dropping keys. -/
@[simp] theorem drop_active (A : K → Prop) [DecidablePred A] : (v.drop A).active = v.active := rfl

/-- What was put is shown. -/
@[simp] theorem put_shown [DecidableEq K] (k : K) (x : V) :
    (v.put k x).shown = Function.update v.shown k (some x) := change_shown ..

/-- What was dropped is not. -/
@[simp] theorem drop_shown (A : K → Prop) [DecidablePred A] :
    (v.drop A).shown = fun k => if A k then none else v.shown k := change_shown ..

/-- Putting a value concerns the active group only. -/
theorem kept_put [DecidableEq K] (k : K) (x : V) {g : G} (h : g ≠ v.active) :
    (v.put k x).kept g = v.kept g := v.change_kept _ h

/-- So does dropping keys. -/
theorem kept_drop (A : K → Prop) [DecidablePred A] {g : G} (h : g ≠ v.active) :
    (v.drop A).kept g = v.kept g := v.change_kept _ h

end Vault

end KlteCommon.Standard
