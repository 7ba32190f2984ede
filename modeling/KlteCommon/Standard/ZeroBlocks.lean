import KlteCommon.Standard.Sha1
import Mathlib.Tactic.Ring

/-!
# SHA-1 of zeros

The message schedule of a block of zeros is zero, so what such a block makes of a hash value is a
function of the hash value alone. `zeroBlocks` computes it for many blocks, on natural numbers and
in a form the kernel reduces quickly: the loops are recursors, the five words are arguments of a
continuation, and a word is reduced modulo `2 ^ 32` only where its upper bits would be looked at.

The ladder: one round on numbers represents one round of the standard (`Represents.round`), so does
a group of them (`Represents.rounds`), a block and any number of blocks (`zeroBlocks_eq`); and a
message of zeros is such blocks with one other block behind them (`digest_zeros`).
-/

set_option autoImplicit false

namespace KlteCommon.Standard.Sha1

variable {α : Type}

/-! ## Rounds on natural numbers -/

/-- What is still to be done with five words. -/
abbrev Rest (α : Type) := ℕ → ℕ → ℕ → ℕ → ℕ → α

/-- The value of `x` is computed before `r` is. -/
def force (x : ℕ) (r : ℕ → α) : α := Nat.rec (r 0) (fun n _ => r (Nat.succ n)) x

/-- `Ch`, `Parity` and `Maj` -/
def chNat (x y z : ℕ) : ℕ := Nat.xor z (Nat.land x (Nat.xor y z))
def parityNat (x y z : ℕ) : ℕ := Nat.xor x (Nat.xor y z)
def majNat (x y z : ℕ) : ℕ := Nat.lor (Nat.land x y) (Nat.land z (Nat.lor x y))

/-- `n` rounds with function `f`, constant `k` and a schedule of zeros. -/
def roundsNat (f : ℕ → ℕ → ℕ → ℕ) (k : ℕ) (r : Rest α) (n : ℕ) : Rest α :=
  Nat.rec r (fun _ next a b c d e =>
    next (Nat.mod (Nat.add (Nat.add (Nat.mul a 32) (Nat.div a 134217728))
      (Nat.add (f b c d) (Nat.add e k))) 4294967296) a
      (Nat.add (Nat.mul b 1073741824) (Nat.div b 4)) c d) n

/-- The sum of two words. -/
def addNat (x y : ℕ) (r : ℕ → α) : α := force (Nat.mod (Nat.add x y) 4294967296) r

/-- One block of zeros. -/
def zeroBlock (r : Rest α) (a b c d e : ℕ) : α :=
  roundsNat chNat 0x5a827999 (roundsNat parityNat 0x6ed9eba1 (roundsNat majNat 0x8f1bbcdc
    (roundsNat parityNat 0xca62c1d6 (fun a' b' c' d' e' =>
      addNat a a' fun a => addNat b b' fun b => addNat c c' fun c => addNat d d' fun d =>
        addNat e e' fun e => r a b c d e) 20) 20) 20) 20 a b c d e

/-- `n` blocks of zeros. -/
def zeroBlocks (r : Rest α) (n : ℕ) : Rest α := Nat.rec r (fun _ next => zeroBlock next) n

/-! ## What they compute -/

/-- Handing the words of a hash value on. -/
def Words.handTo (x : Words) (r : Rest α) : α :=
  r x.a.toNat x.b.toNat x.c.toNat x.d.toNat x.e.toNat

/-- The numbers stand for the words, the last three of them up to multiples of `2 ^ 32`. -/
structure Represents (x : Words) (a b c d e : ℕ) : Prop where
  a : a = x.a.toNat
  b : b = x.b.toNat
  c : c % 2 ^ 32 = x.c.toNat
  d : d % 2 ^ 32 = x.d.toNat
  e : e % 2 ^ 32 = x.e.toNat

/-- The number is evaluated, and nothing else. -/
theorem force_eq (x : ℕ) (r : ℕ → α) : force x r = r x := by cases x <;> rfl

/-- A rotation is a sum. -/
theorem rotate_toNat {x n : ℕ} (hx : x < 2 ^ 32) (hn : n ≤ 32) :
    (x <<< n % 2 ^ 32 ||| x >>> (32 - n)) = (x * 2 ^ n + x / 2 ^ (32 - n)) % 2 ^ 32 := by
  have hpow : 2 ^ 32 = 2 ^ (32 - n) * 2 ^ n := by rw [← Nat.pow_add, Nat.sub_add_cancel hn]
  rw [hpow] at hx ⊢
  generalize hQ : 2 ^ (32 - n) = Q at hx
  have hpos : 0 < Q := hQ ▸ Nat.two_pow_pos _
  have hlow : x % Q < Q := Nat.mod_lt _ hpos
  have hhigh : x / Q < 2 ^ n := Nat.div_lt_of_lt_mul hx
  have hsum : x * 2 ^ n + x / Q = x % Q * 2 ^ n + x / Q + Q * 2 ^ n * (x / Q) := by
    conv_lhs => rw [← Nat.div_add_mod x Q, Nat.mul_add_div hpos, Nat.div_eq_of_lt hlow]
    ring
  have hfits : x % Q * 2 ^ n + x / Q < Q * 2 ^ n :=
    calc x % Q * 2 ^ n + x / Q < x % Q * 2 ^ n + 2 ^ n := Nat.add_lt_add_left hhigh _
      _ = (x % Q + 1) * 2 ^ n := (Nat.succ_mul _ _).symm
      _ ≤ Q * 2 ^ n := Nat.mul_le_mul_right _ hlow
  rw [hsum, Nat.add_mul_mod_self_left, Nat.mod_eq_of_lt hfits, Nat.shiftLeft_eq,
    Nat.mul_mod_mul_right, Nat.shiftRight_eq_div_pow, hQ, ← Nat.shiftLeft_eq,
    Nat.shiftLeft_add_eq_or_of_lt hhigh]

/-- A rotation by five, in numbers. -/
theorem rotl_five (x : UInt32) :
    (rotl 5 x).toNat = (x.toNat * 32 + x.toNat / 134217728) % 2 ^ 32 := by
  refine Eq.trans ?_ (rotate_toNat x.toNat_lt (n := 5) (by decide))
  rw [rotl, UInt32.toNat_or, UInt32.toNat_shiftLeft, UInt32.toNat_shiftRight]
  rfl

/-- A rotation by thirty, in numbers. -/
theorem rotl_thirty (x : UInt32) :
    (rotl 30 x).toNat = (x.toNat * 1073741824 + x.toNat / 4) % 2 ^ 32 := by
  refine Eq.trans ?_ (rotate_toNat x.toNat_lt (n := 30) (by decide))
  rw [rotl, UInt32.toNat_or, UInt32.toNat_shiftLeft, UInt32.toNat_shiftRight]
  rfl

/-- The function and the constant of round `t`, on numbers. -/
structure Computes (t : ℕ) (f : ℕ → ℕ → ℕ → ℕ) (k : ℕ) : Prop where
  f : ∀ (x y z : UInt32) (a b c : ℕ), a = x.toNat → b % 2 ^ 32 = y.toNat → c % 2 ^ 32 = z.toNat →
    f a b c % 2 ^ 32 = (Sha1.f t x y z).toNat
  k : k = (Sha1.k t).toNat

/-- The steps with the choice. -/
theorem computes_ch {t : ℕ} (ht : t < 20) : Computes t chNat 0x5a827999 := by
  refine ⟨?_, by simp [Sha1.k, ht]⟩
  rintro x y z _ b c rfl hb hc
  have hch : Sha1.f t x y z = z ^^^ (x &&& (y ^^^ z)) := by
    rw [Sha1.f, if_pos ht]
    apply UInt32.eq_of_toBitVec_eq
    ext i hi
    simp
    cases x.toBitVec[i] <;> cases y.toBitVec[i] <;> cases z.toBitVec[i] <;> rfl
  have hx : x.toNat % 2 ^ 32 = x.toNat := Nat.mod_eq_of_lt x.toNat_lt
  change (c ^^^ (x.toNat &&& (b ^^^ c))) % 2 ^ 32 = _
  rw [hch, Nat.xor_mod_two_pow, Nat.and_mod_two_pow, Nat.xor_mod_two_pow, hx, hb, hc]
  simp

/-- The steps with the parity. -/
theorem computes_parity {t : ℕ} {k : ℕ} (ht : 20 ≤ t ∧ t < 40 ∨ 60 ≤ t)
    (hk : k = (Sha1.k t).toNat) : Computes t parityNat k := by
  refine ⟨?_, hk⟩
  rintro x y z _ b c rfl hb hc
  have hparity : Sha1.f t x y z = x ^^^ y ^^^ z := by
    unfold Sha1.f
    grind
  have hx : x.toNat % 2 ^ 32 = x.toNat := Nat.mod_eq_of_lt x.toNat_lt
  change (x.toNat ^^^ (b ^^^ c)) % 2 ^ 32 = _
  rw [hparity, Nat.xor_mod_two_pow, Nat.xor_mod_two_pow, hx, hb, hc, UInt32.toNat_xor,
    UInt32.toNat_xor, Nat.xor_assoc]

/-- The steps with the majority. -/
theorem computes_maj {t : ℕ} (hl : 40 ≤ t) (ht : t < 60) : Computes t majNat 0x8f1bbcdc := by
  have hlt : ¬ t < 20 ∧ ¬ t < 40 := by omega
  refine ⟨?_, by simp [Sha1.k, ht, hlt]⟩
  rintro x y z _ b c rfl hb hc
  have hmaj : Sha1.f t x y z = (x &&& y) ||| (z &&& (x ||| y)) := by
    rw [Sha1.f, if_neg hlt.1, if_neg hlt.2, if_pos ht]
    apply UInt32.eq_of_toBitVec_eq
    ext i hi
    simp
    cases x.toBitVec[i] <;> cases y.toBitVec[i] <;> cases z.toBitVec[i] <;> rfl
  have hx : x.toNat % 2 ^ 32 = x.toNat := Nat.mod_eq_of_lt x.toNat_lt
  change ((x.toNat &&& b) ||| (c &&& (x.toNat ||| b))) % 2 ^ 32 = _
  rw [hmaj, Nat.or_mod_two_pow, Nat.and_mod_two_pow, Nat.and_mod_two_pow, Nat.or_mod_two_pow, hx,
    hb, hc]
  simp

/-- **One round.** -/
theorem Represents.round {x : Words} {a b c d e t k : ℕ} {f : ℕ → ℕ → ℕ → ℕ}
    (h : Represents x a b c d e) (hf : Computes t f k) :
    Represents (Sha1.round (fun _ => 0) x t)
      ((a * 32 + a / 134217728 + (f b c d + (e + k))) % 4294967296) a
      (b * 1073741824 + b / 4) c d := by
  refine ⟨?_, h.a, ?_, h.c, h.d⟩
  · have hfun := hf.f x.b x.c x.d b c d h.b h.c h.d
    simp only [Sha1.round, UInt32.toNat_add, rotl_five, ← hfun, ← h.a, ← h.e, ← hf.k]
    simp only [UInt32.toNat_zero]
    omega
  · rw [h.b]
    exact (rotl_thirty x.b).symm

/-- **A group of rounds.** -/
theorem Represents.rounds {x : Words} {a b c d e k : ℕ} {f : ℕ → ℕ → ℕ → ℕ} (start : ℕ)
    (r : Rest α) (n : ℕ) (h : Represents x a b c d e)
    (hf : ∀ t, start ≤ t → t < start + n → Computes t f k) :
    ∃ a' b' c' d' e', Represents ((List.range' start n).foldl (Sha1.round fun _ => 0) x)
      a' b' c' d' e' ∧ roundsNat f k r n a b c d e = r a' b' c' d' e' := by
  induction n generalizing x a b c d e start with
  | zero => exact ⟨a, b, c, d, e, h, rfl⟩
  | succ n ih =>
    rw [List.range'_succ]
    exact ih _ (h.round (hf start le_rfl (by omega))) fun t hl ht => hf t (by omega) (by omega)

/-- A block of zeros has a schedule of zeros. -/
theorem schedule_zero (t : ℕ) : schedule (fun _ => 0) t = 0 := by
  induction t using Nat.strongRecOn with
  | ind t ih =>
    by_cases ht : t < 16
    · rw [schedule_of_lt _ ht]
    · rw [schedule_of_ge _ ht, ih (t - 3) (by omega), ih (t - 8) (by omega),
        ih (t - 14) (by omega), ih (t - 16) (by omega)]
      decide

/-- A sum, in numbers. -/
theorem addNat_eq {x y : ℕ} {u v : UInt32} (r : ℕ → α) (hx : x = u.toNat)
    (hy : y % 2 ^ 32 = v.toNat) : addNat x y r = r (v + u).toNat := by
  rw [addNat, force_eq, UInt32.toNat_add, hx, ← hy]
  congr 1
  change (u.toNat + y) % 4294967296 = _
  omega

/-- **One block** of zeros. -/
theorem zeroBlock_eq (r : Rest α) (x : Words) :
    x.handTo (zeroBlock r) = (compress x fun _ => 0).handTo r := by
  have hrange : List.range 80 = List.range' 0 20 ++ List.range' 20 20 ++ List.range' 40 20 ++
      List.range' 60 20 := by decide
  have hself : ∀ w : UInt32, w.toNat % 2 ^ 32 = w.toNat := fun w => Nat.mod_eq_of_lt w.toNat_lt
  unfold Words.handTo zeroBlock
  generalize hlast : (fun a' b' c' d' e' => addNat x.a.toNat a' _) = last
  have h : Represents x x.a.toNat x.b.toNat x.c.toNat x.d.toNat x.e.toNat :=
    ⟨rfl, rfl, hself _, hself _, hself _⟩
  obtain ⟨_, _, _, _, _, h, hr₁⟩ := h.rounds (k := 0x5a827999) 0
    (roundsNat parityNat 0x6ed9eba1 (roundsNat majNat 0x8f1bbcdc
      (roundsNat parityNat 0xca62c1d6 last 20) 20) 20) 20 fun t _ ht => computes_ch (by omega)
  obtain ⟨_, _, _, _, _, h, hr₂⟩ := h.rounds (k := 0x6ed9eba1) 20
    (roundsNat majNat 0x8f1bbcdc (roundsNat parityNat 0xca62c1d6 last 20) 20) 20
    fun t hl ht => computes_parity (.inl ⟨hl, ht⟩) (by simp [k, ht, Nat.not_lt.mpr hl])
  obtain ⟨_, _, _, _, _, h, hr₃⟩ := h.rounds 40
    (roundsNat parityNat 0xca62c1d6 last 20) 20 fun t hl ht => computes_maj hl ht
  obtain ⟨a, b, c, d, e, h, hr₄⟩ := h.rounds (k := 0xca62c1d6) 60 last 20
    fun t hl ht => computes_parity (.inr hl)
      (by simp [k, show ¬ t < 20 ∧ ¬ t < 40 ∧ ¬ t < 60 by omega])
  rw [hr₁, hr₂, hr₃, hr₄, ← hlast]
  simp only [compress, funext schedule_zero, hrange, List.foldl_append]
  generalize List.foldl _ _ (List.range' 60 20) = y at h
  have ha := hself y.a ▸ congrArg (· % 2 ^ 32) h.a
  have hb := hself y.b ▸ congrArg (· % 2 ^ 32) h.b
  rw [addNat_eq _ rfl ha, addNat_eq _ rfl hb, addNat_eq _ rfl h.c, addNat_eq _ rfl h.d,
    addNat_eq _ rfl h.e]

/-- The words of a block of zeros. -/
theorem word_zero {b : ℕ → UInt8} {i : ℕ} (h : ∀ j < 4, b (4 * i + j) = 0) : word b i = 0 := by
  rw [word, h 1 (by decide), h 2 (by decide), h 3 (by decide), ← Nat.add_zero (4 * i),
    h 0 (by decide)]
  rfl

/-- **Any number of blocks** of zeros. -/
theorem zeroBlocks_eq (r : Rest α) {b : ℕ → UInt8} {q : ℕ} (n : ℕ)
    (h : ∀ i < 64 * n, b (64 * q + i) = 0) :
    (chain b q).handTo (zeroBlocks r n) = (chain b (q + n)).handTo r := by
  induction n generalizing q with
  | zero => rfl
  | succ n ih =>
    have hblock : chain b (q + 1) = compress (chain b q) fun _ => 0 :=
      compress_congr (fun t ht => word_zero fun j hj => by
        have := h (4 * t + j) (by omega)
        rwa [show 4 * (16 * q + t) + j = 64 * q + (4 * t + j) by omega]) _
    have hrest := ih (q := q + 1) fun i hi => by
      have := h (64 + i) (by omega)
      rwa [show 64 * (q + 1) + i = 64 * q + (64 + i) by omega]
    calc (chain b q).handTo (zeroBlocks r (n + 1))
        = (chain b q).handTo (zeroBlock (zeroBlocks r n)) := rfl
      _ = (chain b (q + 1)).handTo (zeroBlocks r n) := by rw [zeroBlock_eq, hblock]
      _ = (chain b (q + (n + 1))).handTo r := by
        rw [hrest, Nat.add_assoc, Nat.add_comm 1 n]

/-! ## A message of zeros -/

/-- The byte at place `i` of the block behind the whole blocks of a message of `n` zeros. -/
def lastByte (n i : ℕ) : UInt8 :=
  if i = n % 64 then 0x80 else if i < 56 then 0 else (bytes64 (8 * n)).getD (i - 56) 0

/-- The padded message is whole blocks of zeros and that block. -/
theorem pad_zeros {n : ℕ} (hn : n % 64 < 56) :
    (pad (List.replicate n 0)).length / 64 = n / 64 + 1 ∧
      (∀ i < 64 * (n / 64), (pad (List.replicate n 0)).getD i 0 = 0) ∧
      ∀ i < 64, (pad (List.replicate n 0)).getD (64 * (n / 64) + i) 0 = lastByte n i := by
  have hlength : (List.replicate n (0 : UInt8)).length = n := List.length_replicate
  have hzeros : zeros n = 55 - n % 64 := by unfold zeros; omega
  have hbody : ∀ i < n, (pad (List.replicate n 0)).getD i 0 = 0 := fun i hi => by
    rw [pad_getD_of_lt _ (by rwa [hlength])]
    simp [hi]
  refine ⟨?_, fun i hi => hbody i (by omega), fun i hi => ?_⟩
  · rw [pad_length, hlength, hzeros]
    omega
  · have hmark := pad_getD_length (List.replicate n 0)
    have hgap := @pad_getD_zeros (List.replicate n 0)
    have hbits := @pad_getD_bits (List.replicate n 0)
    rw [hlength, hzeros] at hgap hbits
    rw [hlength] at hmark
    unfold lastByte
    split
    · rename_i heq
      rwa [heq, Nat.div_add_mod]
    · split
      · by_cases hlt : i < n % 64
        · exact hbody _ (by omega)
        · have := hgap (i := i - n % 64 - 1) (by omega)
          rwa [show n + 1 + (i - n % 64 - 1) = 64 * (n / 64) + i by omega] at this
      · have := hbits (i := i - 56) (by omega)
        rw [show n + 1 + (55 - n % 64) + (i - 56) = 64 * (n / 64) + i by omega] at this
        rw [this]
        have hlt : i - 56 < 8 := by omega
        simp [bytes64, hlt]

/-- **The digest of a message of zeros.** -/
theorem digest_zeros {n : ℕ} (hn : n % 64 < 56) :
    digest (List.replicate n 0) =
      compress (chain (fun _ => 0) (n / 64)) fun t => word (lastByte n) t := by
  obtain ⟨hlength, hbody, hlast⟩ := pad_zeros hn
  rw [digest, hlength, chain, chain_congr hbody]
  refine compress_congr (fun t ht => ?_) _
  have h : ∀ j < 4, (pad (List.replicate n 0)).getD (4 * (16 * (n / 64) + t) + j) 0 =
      lastByte n (4 * t + j) := fun j hj => by
    rw [← hlast _ (by omega), show 4 * (16 * (n / 64) + t) + j = 64 * (n / 64) + (4 * t + j) by omega]
  have hfirst : (pad (List.replicate n 0)).getD (4 * (16 * (n / 64) + t)) 0 = lastByte n (4 * t) :=
    h 0 (by decide)
  simp only [word, hfirst, h 1 (by decide), h 2 (by decide), h 3 (by decide)]

end KlteCommon.Standard.Sha1
