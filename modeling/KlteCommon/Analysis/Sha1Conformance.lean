import KlteCommon.Fingerprint.Hash
import KlteCommon.Standard.Sha1

/-!
# `hash.c` is SHA-1

The implementation takes one byte at a time into a block that it processes when it is full, keeps
the length in two halves, and pads in place. The standard pads first and cuts the result into
blocks.

The ladder: a processed block is a step of the standard (`process_eq_compress`); `Filled` says
that a context has taken a sequence of bytes up to some point, and every piece of the
implementation moves that point on (`Filled.push`, `Filled.process`, `Filled.zeroTo`); the
padding of either length brings it to the end of the padded message (`sha1PadMessage_spec`). So
the digest is the standard's (`sha1Hash_conforms`).
-/

set_option autoImplicit false

namespace KlteCommon.Analysis

open KlteCommon.Fingerprint KlteCommon.Standard

/-! ## One block -/

/-- The macro is the standard's rotation. -/
theorem circularShift_eq_rotl (bits word : UInt32) :
    sha1CircularShift bits word = Sha1.rotl bits word := rfl

/-- An element before the one that was pushed. -/
theorem getD_push_of_lt {W : Array UInt32} {x : UInt32} {t : ℕ} (ht : t < W.size) :
    (W.push x).getD t 0 = W.getD t 0 := by
  simp [Array.getElem?_push, Nat.ne_of_lt ht]

/-- The one that was pushed. -/
theorem getD_push_size {W : Array UInt32} {x : UInt32} : (W.push x).getD W.size 0 = x := by
  simp

/-- The schedule, as far as its loop has got. -/
theorem schedule_loop (block : Vector UInt8 64) (n : ℕ) :
    let W := (List.range' 16 n).foldl
      (fun W t => W.push (sha1CircularShift 1
        (W.getD (t - 3) 0 ^^^ W.getD (t - 8) 0 ^^^ W.getD (t - 14) 0 ^^^ W.getD (t - 16) 0)))
      ((List.range 16).map (blockWord block)).toArray
    W.size = 16 + n ∧ ∀ t < 16 + n, W.getD t 0 = Sha1.schedule (blockWord block) t := by
  induction n with
  | zero =>
    refine ⟨by simp, fun t ht => ?_⟩
    have ht : t < 16 := by omega
    simp [ht, Sha1.schedule_of_lt]
  | succ n ih =>
    obtain ⟨hsize, hW⟩ := ih
    simp only [List.range'_1_concat, List.foldl_append, List.foldl_cons, List.foldl_nil]
    generalize List.foldl _ _ (List.range' 16 n) = W at hsize hW ⊢
    refine ⟨by simp [hsize]; omega, fun t ht => ?_⟩
    by_cases htn : t < 16 + n
    · rw [← hW t htn, getD_push_of_lt (by omega)]
    · obtain rfl : t = 16 + n := by omega
      rw [Sha1.schedule_of_ge _ (by omega), ← hW (16 + n - 3) (by omega),
        ← hW (16 + n - 8) (by omega), ← hW (16 + n - 14) (by omega), ← hW (16 + n - 16) (by omega),
        ← hsize, getD_push_size, circularShift_eq_rotl]

/-- The words of the schedule are those of the standard. -/
theorem messageSchedule_getD (block : Vector UInt8 64) {t : ℕ} (ht : t < 80) :
    (messageSchedule block).getD t 0 = Sha1.schedule (blockWord block) t :=
  (schedule_loop block 64).2 t ht

/-- The working words, as those of the standard. -/
def workingWords (w : Sha1Words) : Sha1.Words := ⟨w.a, w.b, w.c, w.d, w.e⟩

/-- The digest of a context, as a hash value of the standard. -/
def wordsOf (h : Vector UInt32 5) : Sha1.Words := workingWords (.ofDigest h)

/-- A group of rounds with one function and one constant. -/
theorem rounds_group (block : Vector UInt8 64) (f : UInt32 → UInt32 → UInt32 → UInt32)
    (k : UInt32) (start n : ℕ) (hn : start + n ≤ 80)
    (hf : ∀ t, start ≤ t → t < start + n → f = Sha1.f t)
    (hk : ∀ t, start ≤ t → t < start + n → k = Sha1.k t) (w : Sha1Words) :
    workingWords ((List.range' start n).foldl (sha1Round f k (messageSchedule block)) w) =
      (List.range' start n).foldl (Sha1.round (Sha1.schedule (blockWord block)))
        (workingWords w) := by
  induction n with
  | zero => rfl
  | succ n ih =>
    have ih := ih (by omega) (fun t h₁ h₂ => hf t h₁ (by omega)) fun t h₁ h₂ => hk t h₁ (by omega)
    simp only [List.range'_1_concat, List.foldl_append, List.foldl_cons, List.foldl_nil, ← ih]
    generalize List.foldl _ w _ = w
    have hW := messageSchedule_getD block (t := start + n) (by omega)
    have hf := hf (start + n) (by omega) (by omega)
    have hk := hk (start + n) (by omega) (by omega)
    simp only [sha1Round, Sha1.round, workingWords, hW, hf, hk, circularShift_eq_rotl]
    rw [UInt32.add_assoc _ (Sha1.schedule _ _), UInt32.add_comm (Sha1.schedule _ _),
      ← UInt32.add_assoc]

/-- **One block.** Processing the block is one step of the standard. -/
theorem process_eq_compress (c : SHA1Context) :
    wordsOf (sha1ProcessMessageBlock c).messageDigest =
      Sha1.compress (wordsOf c.messageDigest) (blockWord c.messageBlock) := by
  have hrange : List.range 80 = List.range' 0 20 ++ List.range' 20 20 ++ List.range' 40 20 ++
      List.range' 60 20 := by decide
  have h₀ := rounds_group c.messageBlock (fun b c d => (b &&& c) ||| (~~~b &&& d)) 0x5A827999 0 20
    (by decide) (fun t _ ht => by funext x y z; simp [Sha1.f, ht, Sha1.ch_eq_or])
    (fun t _ ht => by simp [Sha1.k, ht])
  have h₁ := rounds_group c.messageBlock (fun b c d => b ^^^ c ^^^ d) 0x6ED9EBA1 20 20
    (by decide) (fun t hl ht => by funext x y z; simp [Sha1.f, ht, Nat.not_lt.mpr hl])
    (fun t hl ht => by simp [Sha1.k, ht, Nat.not_lt.mpr hl])
  have h₂ := rounds_group c.messageBlock (fun b c d => (b &&& c) ||| (b &&& d) ||| (c &&& d))
    0x8F1BBCDC 40 20 (by decide)
    (fun t hl ht => by
      funext x y z
      have hlt : ¬ t < 40 ∧ ¬ t < 20 := by omega
      simp [Sha1.f, ht, hlt, Sha1.maj_eq_or])
    (fun t hl ht => by
      have hlt : ¬ t < 40 ∧ ¬ t < 20 := by omega
      simp [Sha1.k, ht, hlt])
  have h₃ := rounds_group c.messageBlock (fun b c d => b ^^^ c ^^^ d) 0xCA62C1D6 60 20
    (by decide)
    (fun t hl ht => by
      have hlt : ¬ t < 60 ∧ ¬ t < 40 ∧ ¬ t < 20 := by omega
      funext x y z
      simp [Sha1.f, hlt])
    (fun t hl ht => by
      have hlt : ¬ t < 60 ∧ ¬ t < 40 ∧ ¬ t < 20 := by omega
      simp [Sha1.k, hlt])
  have hstart : wordsOf c.messageDigest = workingWords ⟨c.messageDigest[0], c.messageDigest[1],
      c.messageDigest[2], c.messageDigest[3], c.messageDigest[4]⟩ := rfl
  simp only [Sha1.compress, hrange, List.foldl_append]
  rw [hstart, ← h₀, ← h₁, ← h₂, ← h₃]
  simp only [sha1ProcessMessageBlock, wordsOf, workingWords, Sha1Words.ofDigest]
  simp [UInt32.add_comm]

/-! ## Filling the block -/

/-- The context has taken `q` blocks of a sequence of bytes, and `j` bytes of the next one. -/
structure Filled (b : ℕ → UInt8) (q j : ℕ) (c : SHA1Context) : Prop where
  digest : wordsOf c.messageDigest = Sha1.chain b q
  index : c.messageBlockIndex = j
  block : ∀ i < j, c.messageBlock.getD i 0 = b (64 * q + i)

/-- A block with one byte set. -/
theorem getD_setIfInBounds (v : Vector UInt8 64) (i j : ℕ) (x : UInt8) (hi : i < 64) :
    (v.setIfInBounds i x).getD j 0 = if i = j then x else v.getD j 0 := by
  simp only [Vector.getD, Vector.toArray_setIfInBounds, Array.getD_eq_getD_getElem?,
    Array.getElem?_setIfInBounds]
  split
  · simp [hi]
  · rfl

/-- The words of a full block. -/
theorem blockWord_eq_word {b : ℕ → UInt8} {q : ℕ} {block : Vector UInt8 64}
    (h : ∀ i < 64, block.getD i 0 = b (64 * q + i)) {t : ℕ} (ht : t < 16) :
    blockWord block t = Sha1.word b (16 * q + t) := by
  have hindex : ∀ i, 64 * q + (t * 4 + i) = 4 * (16 * q + t) + i := by intro i; omega
  have hindex₀ : 64 * q + t * 4 = 4 * (16 * q + t) := by omega
  simp only [blockWord, Sha1.word, h (t * 4) (by omega), h (t * 4 + 1) (by omega),
    h (t * 4 + 2) (by omega), h (t * 4 + 3) (by omega), hindex, hindex₀]

section fill

variable {b : ℕ → UInt8} {q j n : ℕ} {c : SHA1Context} {x : UInt8}

/-- A full block is processed. -/
theorem process_digest (hd : wordsOf c.messageDigest = Sha1.chain b q)
    (hb : ∀ i < 64, c.messageBlock.getD i 0 = b (64 * q + i)) :
    wordsOf (sha1ProcessMessageBlock c).messageDigest = Sha1.chain b (q + 1) := by
  rw [process_eq_compress, hd, Sha1.chain]
  exact Sha1.compress_congr (fun t ht => blockWord_eq_word hb ht) _

/-- Processing a full block goes on to the next one. -/
theorem Filled.process (h : Filled b q 64 c) : Filled b (q + 1) 0 (sha1ProcessMessageBlock c) :=
  ⟨process_digest h.digest h.block, rfl, nofun⟩

/-- One more byte. -/
theorem Filled.push (h : Filled b q j c) (hj : j < 64) (hx : x = b (64 * q + j)) :
    Filled b q (j + 1) (c.push x) := by
  refine ⟨h.digest, by simp [SHA1Context.push, h.index], fun i hi => ?_⟩
  simp only [SHA1Context.push]
  rw [getD_setIfInBounds _ _ _ _ (by rw [h.index]; exact hj), h.index]
  split
  · rename_i hij
    rw [hx, hij]
  · exact h.block i (by omega)

/-- The loop of zeros, from `j` on. -/
theorem Filled.zeros (h : Filled b q j c) (hn : j + n ≤ 64)
    (hz : ∀ i < n, b (64 * q + j + i) = 0) :
    Filled b q (j + n) ((List.range n).foldl (fun c _ => c.push 0) c) := by
  induction n with
  | zero => exact h
  | succ n ih =>
    rw [List.range_succ, List.foldl_append]
    refine (ih (by omega) fun i hi => hz i (by omega)).push (by omega) ?_
    rw [← hz n (by omega), Nat.add_assoc]

/-- Filling with zeros, where the message has zeros. -/
theorem Filled.zeroTo (h : Filled b q j c) (hjn : j ≤ n) (hn : n ≤ 64)
    (hz : ∀ i < n - j, b (64 * q + j + i) = 0) : Filled b q n (c.zeroTo n) := by
  have hfill := h.zeros (n := n - j) (by omega) hz
  rwa [Nat.add_sub_cancel' hjn, ← h.index] at hfill

/-- Filling the block with zeros leaves the length. -/
theorem zeroTo_length (c : SHA1Context) (n : ℕ) :
    (c.zeroTo n).lengthLow = c.lengthLow ∧ (c.zeroTo n).lengthHigh = c.lengthHigh := by
  unfold SHA1Context.zeroTo
  generalize n - c.messageBlockIndex = k
  induction k with
  | zero => exact ⟨rfl, rfl⟩
  | succ k ih =>
    rw [List.range_succ, List.foldl_append]
    exact ih

end fill

/-! ## The input loop -/

/-- The context has taken the first `n` bytes of a sequence of bytes. -/
structure Absorbed (b : ℕ → UInt8) (n : ℕ) (c : SHA1Context) : Prop where
  filled : Filled b (n / 64) (n % 64) c
  bits : c.lengthHigh.toNat * 2 ^ 32 + c.lengthLow.toNat = 8 * n
  sound : c.corrupted = 0
  pending : c.computed = 0

/-- A context that was reset has absorbed nothing. -/
theorem sha1Reset_absorbed (b : ℕ → UInt8) (sha : SHA1Context) : Absorbed b 0 (sha1Reset sha) :=
  ⟨⟨rfl, rfl, nofun⟩, by simp [sha1Reset], rfl, rfl⟩

section input

variable {b : ℕ → UInt8} {n : ℕ} {c : SHA1Context} {x : UInt8}

/-- The length in two halves counts on. -/
theorem length_succ {low high : UInt32} (h : high.toNat * 2 ^ 32 + low.toNat = 8 * n)
    (hn : n + 1 < 2 ^ 61) :
    let high' := if low + 8 = 0 then high + 1 else high
    high'.toNat * 2 ^ 32 + (low + 8).toNat = 8 * (n + 1) ∧ ¬ (low + 8 = 0 ∧ high' = 0) := by
  have hlow := low.toNat_lt
  have hsum : (low + 8).toNat = (low.toNat + 8) % 2 ^ 32 := UInt32.toNat_add ..
  intro high'
  by_cases hzero : low + 8 = 0
  · have hwrap : (low + 8).toNat = 0 := congrArg UInt32.toNat hzero
    have hfull : low.toNat + 8 = 2 ^ 32 := by omega
    have hfits : high.toNat + 1 < 2 ^ 32 := by omega
    have hhigh' : high'.toNat = high.toNat + 1 := by
      rw [show high' = high + 1 from if_pos hzero, UInt32.toNat_add]
      exact Nat.mod_eq_of_lt hfits
    refine ⟨?_, fun ⟨_, hover⟩ => ?_⟩
    · calc high'.toNat * 2 ^ 32 + (low + 8).toNat
          = high.toNat * 2 ^ 32 + 2 ^ 32 := by rw [hhigh', hwrap, Nat.succ_mul, Nat.add_zero]
        _ = high.toNat * 2 ^ 32 + (low.toNat + 8) := by rw [hfull]
        _ = 8 * (n + 1) := by rw [← Nat.add_assoc, h, Nat.mul_succ]
    rw [hover] at hhigh'
    exact absurd hhigh' (Nat.succ_ne_zero _).symm
  · have hwrap : (low + 8).toNat ≠ 0 := fun h => hzero (UInt32.toNat_inj.mp h)
    have hfull : (low + 8).toNat = low.toNat + 8 := by omega
    have hhigh' : high' = high := if_neg hzero
    rw [hhigh']
    exact ⟨by omega, fun h => hzero h.1⟩

/-- **One byte.** -/
theorem Absorbed.byte (h : Absorbed b n c) (hn : n + 1 < 2 ^ 61) (hx : x = b n) :
    Absorbed b (n + 1) (sha1InputByte c x) := by
  have hpush := h.filled.push (x := x) (Nat.mod_lt _ (by decide)) (by rw [hx, Nat.div_add_mod])
  obtain ⟨hbits, hover⟩ := length_succ h.bits hn
  have hsound : (if c.lengthLow + 8 = 0 ∧
      (if c.lengthLow + 8 = 0 then c.lengthHigh + 1 else c.lengthHigh) = 0 then 1
      else c.corrupted) = (0 : CInt) := (if_neg hover).trans h.sound
  by_cases hfull : n % 64 = 63
  · -- the byte completes the block
    have hdiv : (n + 1) / 64 = n / 64 + 1 ∧ (n + 1) % 64 = 0 := by omega
    have hindex : (c.push x).messageBlockIndex = 64 := by rw [hpush.index, hfull]
    rw [hfull] at hpush
    rw [sha1InputByte]
    simp only [hindex, if_true]
    refine ⟨?_, hbits, hsound, h.pending⟩
    rw [hdiv.1, hdiv.2]
    exact Filled.process ⟨hpush.digest, rfl, hpush.block⟩
  · have hdiv : (n + 1) / 64 = n / 64 ∧ (n + 1) % 64 = n % 64 + 1 := by omega
    have hindex : (c.push x).messageBlockIndex ≠ 64 := by rw [hpush.index]; omega
    rw [sha1InputByte]
    simp only [hindex, if_false]
    refine ⟨?_, hbits, hsound, h.pending⟩
    rw [hdiv.1, hdiv.2]
    exact ⟨hpush.digest, hpush.index, hpush.block⟩

/-- The loop takes all the bytes. -/
theorem Absorbed.loop (bytes : List UInt8) (h : Absorbed b n c)
    (hlen : n + bytes.length < 2 ^ 61) (hb : ∀ i (hi : i < bytes.length), bytes[i] = b (n + i)) :
    Absorbed b (n + bytes.length) (sha1InputLoop bytes c) := by
  induction bytes generalizing n c with
  | nil => exact h
  | cons x bytes ih =>
    rw [List.length_cons] at hlen ⊢
    rw [sha1InputLoop, h.sound, if_neg (not_not.mpr rfl), Nat.add_comm bytes.length 1, ← Nat.add_assoc]
    refine ih (h.byte (by omega) (hb 0 (by simp))) (by omega) fun i hi => ?_
    rw [Nat.add_assoc, Nat.add_comm 1 i]
    exact hb (i + 1) (Nat.succ_lt_succ hi)

end input

/-! ## The padding -/

/-- A byte of a word. -/
theorem toUInt8_shiftRight (w : UInt32) (s : ℕ) (hs : s < 32) :
    (w >>> UInt32.ofNat s).toUInt8 = UInt8.ofNat (w.toNat / 2 ^ s) := by
  apply UInt8.toNat_inj.mp
  have hs' : s % 4294967296 % 32 = s := by omega
  simp [Nat.shiftRight_eq_div_pow, hs']

/-- The two halves of the length, byte by byte. -/
theorem length_bytes {n : ℕ} {low high : UInt32}
    (h : high.toNat * 2 ^ 32 + low.toNat = 8 * n) {i : ℕ} (hi : i < 4) :
    (high >>> UInt32.ofNat (8 * (3 - i))).toUInt8 = UInt8.ofNat (8 * n / 256 ^ (7 - i)) ∧
      (low >>> UInt32.ofNat (8 * (3 - i))).toUInt8 = UInt8.ofNat (8 * n / 256 ^ (3 - i)) := by
  have hlow := low.toNat_lt
  have hhigh : high.toNat = 8 * n / 2 ^ 32 := by omega
  have hpow : (256 : ℕ) ^ (7 - i) = 2 ^ 32 * 2 ^ (8 * (3 - i)) := by
    rw [← Nat.pow_add, show (256 : ℕ) = 2 ^ 8 from rfl, ← Nat.pow_mul]
    congr 1
    omega
  rw [toUInt8_shiftRight _ _ (by omega), toUInt8_shiftRight _ _ (by omega), hhigh,
    Nat.div_div_eq_div_mul, hpow]
  refine ⟨rfl, UInt8.toNat_inj.mp ?_⟩
  rw [← h, Nat.pow_mul]
  obtain rfl | rfl | rfl | rfl : i = 0 ∨ i = 1 ∨ i = 2 ∨ i = 3 := by omega
  all_goals simp <;> omega

/-- The block with the length in its last eight bytes. -/
theorem lengthBlock_getD (block : Vector UInt8 64) (v₀ v₁ v₂ v₃ v₄ v₅ v₆ v₇ : UInt8) (i : ℕ)
    (hi : i < 64) :
    ((((((((block.setIfInBounds 56 v₀).setIfInBounds 57 v₁).setIfInBounds 58 v₂).setIfInBounds
      59 v₃).setIfInBounds 60 v₄).setIfInBounds 61 v₅).setIfInBounds 62 v₆).setIfInBounds
      63 v₇).getD i 0 =
      if i < 56 then block.getD i 0 else [v₀, v₁, v₂, v₃, v₄, v₅, v₆, v₇].getD (i - 56) 0 := by
  simp only [getD_setIfInBounds, Nat.reduceLT]
  by_cases h : i < 56
  · have hne : 56 ≠ i ∧ 57 ≠ i ∧ 58 ≠ i ∧ 59 ≠ i ∧ 60 ≠ i ∧ 61 ≠ i ∧ 62 ≠ i ∧ 63 ≠ i := by omega
    simp [h, hne]
  · obtain rfl | rfl | rfl | rfl | rfl | rfl | rfl | rfl : i = 56 ∨ i = 57 ∨ i = 58 ∨ i = 59 ∨
      i = 60 ∨ i = 61 ∨ i = 62 ∨ i = 63 := by omega
    all_goals rfl

section padding

variable {m : List UInt8} {c : SHA1Context}

/-- The context that `sha1PadMessage` has before it puts the length in. -/
def sha1PadZeros (context : SHA1Context) : SHA1Context :=
  if context.messageBlockIndex > 55 then
    (sha1ProcessMessageBlock ((context.push 0x80).zeroTo 64)).zeroTo 56
  else (context.push 0x80).zeroTo 56

/-- The zeros of the padding do not count for the length. -/
theorem sha1PadZeros_length (c : SHA1Context) :
    (sha1PadZeros c).lengthLow = c.lengthLow ∧ (sha1PadZeros c).lengthHigh = c.lengthHigh := by
  unfold sha1PadZeros
  split
  · have hfirst := zeroTo_length (c.push 0x80) 64
    have hsecond := zeroTo_length (sha1ProcessMessageBlock ((c.push 0x80).zeroTo 64)) 56
    exact ⟨hsecond.1.trans hfirst.1, hsecond.2.trans hfirst.2⟩
  · exact zeroTo_length (c.push 0x80) 56

/-- Both branches of the padding come to the place of the length. -/
theorem Absorbed.padZeros (h : Absorbed ((Sha1.pad m).getD · 0) m.length c) :
    Filled ((Sha1.pad m).getD · 0) ((m.length + 1 + Sha1.zeros m.length) / 64) 56
      (sha1PadZeros c) := by
  have hzeros : Sha1.zeros m.length = (119 - m.length % 64) % 64 := rfl
  have hpush := h.filled.push (x := 0x80) (Nat.mod_lt _ (by decide))
    (by rw [Nat.div_add_mod, Sha1.pad_getD_length])
  rw [sha1PadZeros, h.filled.index]
  by_cases hlate : m.length % 64 > 55
  · -- no room for the length in this block
    have hblocks : (m.length + 1 + Sha1.zeros m.length) / 64 = m.length / 64 + 1 := by omega
    have hfull := (hpush.zeroTo (n := 64) (by omega) (by omega) fun i hi => by
      rw [show 64 * (m.length / 64) + (m.length % 64 + 1) + i = m.length + 1 + i by omega]
      exact Sha1.pad_getD_zeros m (by omega)).process
    rw [if_pos hlate, hblocks]
    refine hfull.zeroTo (by omega) (by omega) fun i hi => ?_
    rw [show 64 * (m.length / 64 + 1) + 0 + i = m.length + 1 + (63 - m.length % 64 + i) by omega]
    exact Sha1.pad_getD_zeros m (by omega)
  · have hblocks : (m.length + 1 + Sha1.zeros m.length) / 64 = m.length / 64 := by omega
    rw [if_neg hlate, hblocks]
    refine hpush.zeroTo (by omega) (by omega) fun i hi => ?_
    rw [show 64 * (m.length / 64) + (m.length % 64 + 1) + i = m.length + 1 + i by omega]
    exact Sha1.pad_getD_zeros m (by omega)

/-- **The padding** completes the message. -/
theorem Absorbed.padMessage (h : Absorbed ((Sha1.pad m).getD · 0) m.length c) :
    wordsOf (sha1PadMessage c).messageDigest = Sha1.digest m := by
  have hfill := h.padZeros
  have hbits := h.bits
  obtain ⟨hlow, hhigh⟩ := sha1PadZeros_length c
  rw [← hlow, ← hhigh] at hbits
  have hplace := (Sha1.zeros_spec m.length).1
  rw [Sha1.digest, Sha1.pad_length, Nat.mul_div_cancel_left _ (by decide)]
  refine process_digest hfill.digest fun i hi => ?_
  refine (lengthBlock_getD _ _ _ _ _ _ _ _ _ i hi).trans ?_
  by_cases hlt : i < 56
  · rw [if_pos hlt]
    exact hfill.block i hlt
  · obtain ⟨k, rfl, hk⟩ : ∃ k, i = 56 + k ∧ k < 8 := ⟨i - 56, by omega, by omega⟩
    rw [if_neg hlt, Nat.add_sub_cancel_left,
      show 64 * ((m.length + 1 + Sha1.zeros m.length) / 64) + (56 + k) =
        m.length + 1 + Sha1.zeros m.length + k by omega, Sha1.pad_getD_bits m hk]
    have hbyte : ∀ i, i < 4 → _ := fun i hi => length_bytes hbits (i := i) hi
    obtain rfl | rfl | rfl | rfl | rfl | rfl | rfl | rfl : k = 0 ∨ k = 1 ∨ k = 2 ∨ k = 3 ∨ k = 4 ∨
      k = 5 ∨ k = 6 ∨ k = 7 := by omega
    · exact (hbyte 0 (by decide)).1
    · exact (hbyte 1 (by decide)).1
    · exact (hbyte 2 (by decide)).1
    · exact (hbyte 3 (by decide)).1
    · exact (hbyte 0 (by decide)).2
    · exact (hbyte 1 (by decide)).2
    · exact (hbyte 2 (by decide)).2
    · exact (hbyte 3 (by decide)).2

end padding

/-! ## The digest -/

/-- The input of all the bytes. -/
theorem sha1Input_absorbed (sha : SHA1Context) (m : List UInt8) (hlen : m.length < 2 ^ 61) :
    Absorbed ((Sha1.pad m).getD · 0) m.length (sha1Input (sha1Reset sha) m) := by
  have hreset := sha1Reset_absorbed ((Sha1.pad m).getD · 0) sha
  have hloop := hreset.loop m (by omega) fun i hi => by
    rw [Nat.zero_add, Sha1.pad_getD_of_lt m hi]
    simp [hi]
  rw [Nat.zero_add] at hloop
  unfold sha1Input
  split
  · rename_i hm
    subst hm
    exact hreset
  · exact hloop

/-- The first two words, as one number. -/
theorem convertHashToNumber_toNat (c : SHA1Context) :
    (convertHashToNumber c).toNat = (wordsOf c.messageDigest).first64 := by
  have ha := c.messageDigest[0].toNat_lt
  have hb := c.messageDigest[1].toNat_lt
  simp only [convertHashToNumber, Sha1.Words.first64, wordsOf, workingWords, Sha1Words.ofDigest,
    UInt64.toNat_add, UInt64.toNat_shiftLeft, UInt32.toNat_toUInt64, Nat.shiftLeft_eq]
  simp
  omega

/-- **The digest.** Whatever the global context holds, hashing succeeds and leaves the digest of
the standard, and the number the HAL makes of it is the digest's first 64 bits. -/
theorem sha1Hash_conforms (sha : SHA1Context) (m : List UInt8) (hlen : m.length ≤ 2 ^ 31 - 1) :
    (sha1Hash sha m).1 = 0 ∧
      wordsOf (sha1Hash sha m).2.messageDigest = Sha1.digest m ∧
      (convertHashToNumber (sha1Hash sha m).2).toNat = (Sha1.digest m).first64 := by
  have hinput := sha1Input_absorbed sha m (by omega)
  have hdigest := hinput.padMessage
  have hresult : sha1Hash sha m =
      (0, { sha1PadMessage (sha1Input (sha1Reset sha) m) with computed := 1 }) := by
    simp [sha1Hash, sha1Result, hinput.sound, hinput.pending]
  rw [hresult]
  refine ⟨rfl, hdigest, ?_⟩
  rw [← hdigest]
  exact convertHashToNumber_toNat _

/-- The three bytes `abc`. -/
theorem sha1Hash_conforms_abc :
    [97, 98, 99].length ≤ 2 ^ 31 - 1 ∧ (sha1Hash .zero [97, 98, 99]).1 = 0 ∧
      wordsOf (sha1Hash .zero [97, 98, 99]).2.messageDigest = Sha1.digest [97, 98, 99] ∧
      (convertHashToNumber (sha1Hash .zero [97, 98, 99]).2).toNat =
        (Sha1.digest [97, 98, 99]).first64 :=
  ⟨by decide, sha1Hash_conforms .zero [97, 98, 99] (by decide)⟩

/-- The digest the standard's own example has for them. -/
example : wordsOf (sha1Hash .zero [97, 98, 99]).2.messageDigest =
    ⟨0xA9993E36, 0x4706816A, 0xBA3E2571, 0x7850C26C, 0x9CD0D89D⟩ := by decide +kernel

end KlteCommon.Analysis
