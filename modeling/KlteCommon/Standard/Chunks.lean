import Mathlib.Data.List.Basic

/-!
# Buffers written chunk by chunk

A buffer is filled by writing chunks, each a list of cells from some start on, one after the other;
a later chunk overwrites an earlier one. `written` is what the buffer holds in the end, `window`
what is read back from a start on.

The ladder: a cell that no chunk covers keeps what it held (`written_of_not_covers`), and when the
chunks are written in the order of their places each is read back as it was written
(`window_written`).
-/

set_option autoImplicit false

namespace KlteCommon.Standard

variable {α : Type}

/-- A chunk: where it starts and what it holds. -/
abbrev Chunk (α : Type) := ℕ × List α

/-- The chunk covers cell `i`. -/
def Covers (c : Chunk α) (i : ℕ) : Prop := c.1 ≤ i ∧ i < c.1 + c.2.length

/-- The buffer `b` with one chunk written into it. -/
def writtenOne (b : ℕ → α) (c : Chunk α) (i : ℕ) : α :=
  if i < c.1 then b i else c.2.getD (i - c.1) (b i)

/-- The buffer `b` with the chunks written into it, the first one first. -/
def written (b : ℕ → α) (chunks : List (Chunk α)) : ℕ → α := chunks.foldl writtenOne b

/-- The `n` cells from `start` on. -/
def window (b : ℕ → α) (start n : ℕ) : List α := (List.range n).map fun i => b (start + i)

/-- Every chunk ends where the next one starts, or before. -/
def Ascending (chunks : List (Chunk α)) : Prop := chunks.Pairwise fun c d => c.1 + c.2.length ≤ d.1

/-- Nothing is written. -/
@[simp] theorem written_nil (b : ℕ → α) : written b [] = b := rfl

/-- One chunk is written, then the others. -/
@[simp] theorem written_cons (b : ℕ → α) (c : Chunk α) (chunks : List (Chunk α)) :
    written b (c :: chunks) = written (writtenOne b c) chunks := rfl

/-- What a chunk does not cover stays. -/
theorem writtenOne_of_not_covers {b : ℕ → α} {c : Chunk α} {i : ℕ} (h : ¬ Covers c i) :
    writtenOne b c i = b i := by
  unfold writtenOne
  split
  · rfl
  · have hle : c.2.length ≤ i - c.1 := by
      unfold Covers at h
      omega
    rw [List.getD_eq_getElem?_getD, List.getElem?_eq_none hle, Option.getD_none]

/-- A cell that no chunk covers keeps what it held. -/
theorem written_of_not_covers {b : ℕ → α} {chunks : List (Chunk α)} {i : ℕ}
    (h : ∀ c ∈ chunks, ¬ Covers c i) : written b chunks i = b i := by
  induction chunks generalizing b with
  | nil => rfl
  | cons c chunks ih =>
    obtain ⟨hc, hchunks⟩ := List.forall_mem_cons.mp h
    rw [written_cons, ih hchunks, writtenOne_of_not_covers hc]

/-- A cell of a chunk that no later chunk covers. -/
theorem written_of_covers {b : ℕ → α} {c : Chunk α} {later : List (Chunk α)} {i : ℕ}
    (hi : i < c.2.length) (h : ∀ d ∈ later, ¬ Covers d (c.1 + i)) :
    written b (c :: later) (c.1 + i) = c.2[i] := by
  rw [written_cons, written_of_not_covers h, writtenOne, if_neg (by omega), Nat.add_sub_cancel_left,
    List.getD_eq_getElem?_getD, List.getElem?_eq_getElem hi, Option.getD_some]

/-- A window is known by its elements. -/
theorem window_eq_of_getElem {b : ℕ → α} {start : ℕ} {xs : List α}
    (h : ∀ i (hi : i < xs.length), b (start + i) = xs[i]) : window b start xs.length = xs :=
  List.ext_getElem (by simp [window]) fun i _ hi => by simpa [window] using h i hi

/-- **Chunks in order are read back as they were written.** -/
theorem window_written {b : ℕ → α} {chunks : List (Chunk α)} {start : ℕ} {xs : List α}
    (h : Ascending chunks) (hc : (start, xs) ∈ chunks) :
    window (written b chunks) start xs.length = xs := by
  refine window_eq_of_getElem fun i hi => ?_
  induction chunks generalizing b with
  | nil => cases hc
  | cons c chunks ih =>
    obtain ⟨hc', hchunks⟩ := List.pairwise_cons.mp h
    obtain rfl | hmem := List.mem_cons.mp hc
    · refine written_of_covers hi fun d hd => ?_
      have hle : start + xs.length ≤ d.1 := hc' d hd
      unfold Covers
      omega
    · exact ih hchunks hmem

/-- Where all chunks end. -/
theorem written_of_beyond {b : ℕ → α} {chunks : List (Chunk α)} {n i : ℕ}
    (h : ∀ c ∈ chunks, c.1 + c.2.length ≤ n) (hi : n ≤ i) : written b chunks i = b i := by
  refine written_of_not_covers fun c hc => ?_
  have hle := h c hc
  unfold Covers
  omega

end KlteCommon.Standard
