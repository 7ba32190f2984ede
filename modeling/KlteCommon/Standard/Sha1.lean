import Mathlib.Algebra.Group.Nat.Defs
import Mathlib.Data.Nat.Notation

/-!
# SHA-1

The secure hash algorithm SHA-1 of FIPS 180, for messages of whole bytes: the padding (§5.1.1),
the functions and constants (§4.1.1, §4.2.1), the message schedule and the 80 rounds (§6.1.2). The
words are 32 bits and their arithmetic is modulo `2 ^ 32`.

A padded message is read through `word`, so that a block needs no copy of its own; `chain` is the
sequence of intermediate hash values. The lemmas say what an implementation relies on: the padded
length is a multiple of the block size (`pad_length`), and `chain` only looks at the bytes of the
blocks it has passed (`chain_congr`).
-/

set_option autoImplicit false

namespace KlteCommon.Standard.Sha1

/-! ## Functions and constants -/

/-- The circular left shift `ROTL`. -/
def rotl (n : UInt32) (x : UInt32) : UInt32 := (x <<< n) ||| (x >>> (32 - n))

/-- The function `f` of round `t`: `Ch`, `Parity`, `Maj` and `Parity`. -/
def f (t : ℕ) (x y z : UInt32) : UInt32 :=
  if t < 20 then (x &&& y) ^^^ (~~~x &&& z)
  else if t < 40 then x ^^^ y ^^^ z
  else if t < 60 then (x &&& y) ^^^ (x &&& z) ^^^ (y &&& z)
  else x ^^^ y ^^^ z

/-- The constant `K` of round `t`. -/
def k (t : ℕ) : UInt32 :=
  if t < 20 then 0x5a827999 else if t < 40 then 0x6ed9eba1
  else if t < 60 then 0x8f1bbcdc else 0xca62c1d6

/-- Five words: a hash value, or the working variables of the rounds. -/
structure Words where
  a : UInt32
  b : UInt32
  c : UInt32
  d : UInt32
  e : UInt32
  deriving DecidableEq

/-- The initial hash value. -/
def initial : Words := ⟨0x67452301, 0xefcdab89, 0x98badcfe, 0x10325476, 0xc3d2e1f0⟩

/-! ## Padding -/

/-- How many zero bytes follow the byte `0x80` behind a message of `len` bytes. -/
def zeros (len : ℕ) : ℕ := (119 - len % 64) % 64

/-- A number of at most 64 bits as eight bytes, the most significant one first. -/
def bytes64 (n : ℕ) : List UInt8 := (List.range 8).map fun i => UInt8.ofNat (n / 256 ^ (7 - i))

/-- The padded message. -/
def pad (m : List UInt8) : List UInt8 :=
  m ++ 0x80 :: (List.replicate (zeros m.length) 0 ++ bytes64 (8 * m.length))

/-- Eight bytes. -/
@[simp] theorem bytes64_length (n : ℕ) : (bytes64 n).length = 8 := by simp [bytes64]

/-- The zeros are the fewest that make the length come out. -/
theorem zeros_spec (len : ℕ) :
    (len + 1 + zeros len) % 64 = 56 ∧ ∀ j, (len + 1 + j) % 64 = 56 → zeros len ≤ j := by
  unfold zeros
  refine ⟨by omega, fun j hj => by omega⟩

/-- The padded message is made of whole blocks. -/
theorem pad_length (m : List UInt8) :
    (pad m).length = 64 * ((m.length + 1 + zeros m.length) / 64 + 1) := by
  have hzeros := (zeros_spec m.length).1
  simp only [pad, List.length_append, List.length_cons, List.length_replicate, bytes64_length]
  omega

section

variable (m : List UInt8) {i : ℕ}

/-- The padded message begins with the message. -/
theorem pad_getD_of_lt (hi : i < m.length) : (pad m).getD i 0 = m.getD i 0 := by
  simp [pad, List.getElem?_append_left hi]

/-- One bit follows. -/
theorem pad_getD_length : (pad m).getD m.length 0 = 0x80 := by
  simp [pad]

/-- Then zeros. -/
theorem pad_getD_zeros (hi : i < zeros m.length) : (pad m).getD (m.length + 1 + i) 0 = 0 := by
  have hsub : m.length + 1 + i - m.length = i + 1 := by omega
  rw [pad, List.getD_eq_getElem?_getD, List.getElem?_append_right (by omega), hsub,
    List.getElem?_cons_succ, List.getElem?_append_left (by simpa using hi)]
  simp [hi]

/-- The length of the message in bits is last. -/
theorem pad_getD_bits (hi : i < 8) : (pad m).getD (m.length + 1 + zeros m.length + i) 0 =
    UInt8.ofNat (8 * m.length / 256 ^ (7 - i)) := by
  have hsub : m.length + 1 + zeros m.length + i - m.length = zeros m.length + i + 1 := by omega
  rw [pad, List.getD_eq_getElem?_getD, List.getElem?_append_right (by omega), hsub,
    List.getElem?_cons_succ, List.getElem?_append_right (by simp)]
  simp [bytes64, hi]

end

/-! ## Blocks -/

/-- Word `i` of a sequence of bytes, the most significant byte first. -/
def word (bytes : ℕ → UInt8) (i : ℕ) : UInt32 :=
  ((bytes (4 * i)).toUInt32 <<< 24) ||| ((bytes (4 * i + 1)).toUInt32 <<< 16) |||
    ((bytes (4 * i + 2)).toUInt32 <<< 8) ||| (bytes (4 * i + 3)).toUInt32

/-- The message schedule of the block with words `M`. -/
def schedule (M : ℕ → UInt32) (t : ℕ) : UInt32 :=
  if t < 16 then M t
  else rotl 1 (schedule M (t - 3) ^^^ schedule M (t - 8) ^^^ schedule M (t - 14) ^^^
    schedule M (t - 16))

/-- Round `t` with the word `W` of the schedule. -/
def round (W : ℕ → UInt32) (x : Words) (t : ℕ) : Words where
  a := rotl 5 x.a + f t x.b x.c x.d + x.e + k t + W t
  b := x.a
  c := rotl 30 x.b
  d := x.c
  e := x.d

/-- The hash value after one more block, whose words are `M`. -/
def compress (H : Words) (M : ℕ → UInt32) : Words :=
  let x := (List.range 80).foldl (round (schedule M)) H
  ⟨x.a + H.a, x.b + H.b, x.c + H.c, x.d + H.d, x.e + H.e⟩

/-- The hash value after the first `n` blocks of a sequence of bytes. -/
def chain (bytes : ℕ → UInt8) : ℕ → Words
  | 0 => initial
  | n + 1 => compress (chain bytes n) fun t => word bytes (16 * n + t)

/-- The message digest. -/
def digest (m : List UInt8) : Words := chain ((pad m).getD · 0) ((pad m).length / 64)

/-- The first 64 bits of a digest, as a number. -/
def Words.first64 (x : Words) : ℕ := x.a.toNat * 2 ^ 32 + x.b.toNat

/-! ## What the blocks look at -/

/-- The first words of the schedule are those of the block. -/
theorem schedule_of_lt (M : ℕ → UInt32) {t : ℕ} (ht : t < 16) : schedule M t = M t := by
  rw [schedule, if_pos ht]

/-- Each of the others is made of four before it. -/
theorem schedule_of_ge (M : ℕ → UInt32) {t : ℕ} (ht : ¬ t < 16) : schedule M t =
    rotl 1 (schedule M (t - 3) ^^^ schedule M (t - 8) ^^^ schedule M (t - 14) ^^^
      schedule M (t - 16)) := by
  rw [schedule, if_neg ht]

/-- The schedule looks at the 16 words of the block only. -/
theorem schedule_congr {M M' : ℕ → UInt32} (h : ∀ t < 16, M t = M' t) (t : ℕ) :
    schedule M t = schedule M' t := by
  induction t using Nat.strongRecOn with
  | ind t ih =>
    by_cases ht : t < 16
    · rw [schedule_of_lt M ht, schedule_of_lt M' ht, h t ht]
    · rw [schedule_of_ge M ht, schedule_of_ge M' ht, ih (t - 3) (by omega), ih (t - 8) (by omega),
        ih (t - 14) (by omega), ih (t - 16) (by omega)]

/-- Only the words of the block matter. -/
theorem compress_congr {M M' : ℕ → UInt32} (h : ∀ t < 16, M t = M' t) (H : Words) :
    compress H M = compress H M' := by
  rw [compress, compress, funext (schedule_congr h)]

/-- Only the bytes of a word matter. -/
theorem word_congr {b b' : ℕ → UInt8} {i n : ℕ} (h : ∀ j < n, b j = b' j) (hi : 4 * i + 4 ≤ n) :
    word b i = word b' i := by
  rw [word, word, h (4 * i) (by omega), h (4 * i + 1) (by omega), h (4 * i + 2) (by omega),
    h (4 * i + 3) (by omega)]

/-- The first `n` blocks are all that counts for the hash value behind them. -/
theorem chain_congr {b b' : ℕ → UInt8} {n : ℕ} (h : ∀ j < 64 * n, b j = b' j) :
    chain b n = chain b' n := by
  induction n with
  | zero => rfl
  | succ n ih =>
    rw [chain, chain, ih fun j hj => h j (by omega)]
    exact compress_congr (fun t ht => word_congr h (by omega)) _

/-! ## The forms implementations use -/

/-- `Ch` with a disjunction. -/
theorem ch_eq_or (x y z : UInt32) : (x &&& y) ||| (~~~x &&& z) = (x &&& y) ^^^ (~~~x &&& z) := by
  apply UInt32.eq_of_toBitVec_eq
  ext i hi
  simp
  cases x.toBitVec[i] <;> simp

/-- `Maj` with disjunctions. -/
theorem maj_eq_or (x y z : UInt32) :
    (x &&& y) ||| (x &&& z) ||| (y &&& z) = (x &&& y) ^^^ (x &&& z) ^^^ (y &&& z) := by
  apply UInt32.eq_of_toBitVec_eq
  ext i hi
  simp
  cases x.toBitVec[i] <;> cases y.toBitVec[i] <;> cases z.toBitVec[i] <;> rfl

end KlteCommon.Standard.Sha1
