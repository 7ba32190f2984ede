import KlteCommon.Analysis.Sha1Conformance
import KlteCommon.Fingerprint.Effects
import KlteCommon.Standard.ZeroBlocks
import Mathlib.Data.List.TakeDrop
import Mathlib.Data.List.TakeWhile

/-!
# What the HAL hashes

The authenticator id is to be a digest of the whole database file and the enrollment challenge one
of the whole auth token. The file is read into a buffer of `MAX_FILE_LENGTH` bytes with a single
`fread`, and the token, which is bytes of any value, is measured with `strlen`.

The ladder: both numbers are the first 64 bits of the digest of some bytes (`hashFile_toNat`,
`hashString_toNat`); so they are what they are to be exactly when those bytes are the right ones or
the digests collide (`coversFile_iff`, `hashesToken_iff`). Messages of zeros show that neither always
is: their digests are computed block by block (`first64_zeros`).
-/

set_option autoImplicit false

namespace KlteCommon.Analysis

open KlteCommon.Computation KlteCommon.Fingerprint KlteCommon.Standard

/-- Two messages with the same truncated digest. -/
structure Collide (a b : List UInt8) : Prop where
  differ : a ≠ b
  digest : (Sha1.digest a).first64 = (Sha1.digest b).first64

/-- A digest that should have been of `b` and is of `a`. -/
theorem first64_eq_iff {a b : List UInt8} :
    (Sha1.digest a).first64 = (Sha1.digest b).first64 ↔ a = b ∨ Collide a b := by
  constructor
  · intro h
    by_cases hab : a = b
    · exact .inl hab
    · exact .inr ⟨hab, h⟩
  · rintro (rfl | h)
    · rfl
    · exact h.digest

/-! ## The authenticator id -/

/-- The authenticator id of a file is the truncated digest of all its contents. -/
def CoversFile (contents : List UInt8) : Prop :=
  (hashFile (some contents)).toNat = (Sha1.digest contents).first64

/-- What is hashed of a file is what fits the buffer. -/
theorem hashFile_toNat (contents : List UInt8) :
    (hashFile (some contents)).toNat = (Sha1.digest (contents.take maxFileLength)).first64 := by
  refine (sha1Hash_conforms .zero _ ?_).2.2
  have hlen := List.length_take_le maxFileLength contents
  simp only [maxFileLength] at hlen ⊢
  omega

/-- **The whole file** is what the authenticator id covers exactly when it fits the buffer, or what
fits the buffer happens to have the digest of the whole. -/
theorem coversFile_iff (contents : List UInt8) : CoversFile contents ↔
    contents.length ≤ maxFileLength ∨ Collide (contents.take maxFileLength) contents := by
  rw [CoversFile, hashFile_toNat, first64_eq_iff, List.take_eq_self_iff]

/-- Two files whose ids cover them have different ids, unless they collide. -/
theorem hashFile_eq_iff {a b : List UInt8} (ha : CoversFile a) (hb : CoversFile b) :
    hashFile (some a) = hashFile (some b) ↔ a = b ∨ Collide a b := by
  rw [← UInt64.toNat_inj, ha, hb, first64_eq_iff]

/-! ## The challenge -/

/-- The bytes of the C string that starts at `tz.auth_token`. -/
def tokenString (m : Mem) : List UInt8 :=
  (m.tz.authToken.toList ++ m.tz.authSessionToken.toList).takeWhile (· != 0)

/-- The token holds no zero byte, and one is right behind it. -/
def EndsAtToken (m : Mem) : Prop :=
  (∀ b ∈ m.tz.authToken.toList, b ≠ 0) ∧ m.tz.authSessionToken[0] = 0

/-- The challenge is the truncated digest of the token. -/
def HashesToken (m : Mem) (challenge : UInt64) : Prop :=
  challenge.toNat = (Sha1.digest m.tz.authToken.toList).first64

/-- The number of a string is the head of the digest of its bytes up to the first zero. -/
theorem hashString_toNat {memory : List UInt8} (h : memory.length ≤ 2 ^ 31 - 1) :
    (hashString memory).toNat = (Sha1.digest (memory.takeWhile (· != 0))).first64 :=
  (sha1Hash_conforms .zero _ ((List.takeWhile_prefix _).length_le.trans h)).2.2

/-- The string is the token exactly when it ends behind it. -/
theorem tokenString_eq_iff (m : Mem) :
    tokenString m = m.tz.authToken.toList ↔ EndsAtToken m := by
  have hbehind : m.tz.authSessionToken.toList.takeWhile (· != 0) = [] ↔
      m.tz.authSessionToken[0] = 0 := by
    have hlength : 0 < m.tz.authSessionToken.toList.length := by
      rw [Vector.length_toList]
      decide
    simp [List.takeWhile_eq_nil_iff, hlength, -Vector.length_toList]
  unfold tokenString EndsAtToken
  rw [← hbehind]
  constructor
  · intro h
    have hnonzero : ∀ b ∈ m.tz.authToken.toList, (b != 0) = true := fun b hb =>
      List.mem_takeWhile_imp (p := (· != 0)) (h ▸ hb)
    rw [List.takeWhile_append_of_pos hnonzero] at h
    exact ⟨fun b hb => by simpa using hnonzero b hb, List.append_right_eq_self.mp h⟩
  · rintro ⟨hnonzero, hend⟩
    rw [List.takeWhile_append_of_pos (by simpa using hnonzero), hend, List.append_nil]

/-- What `fingerprint_pre_enroll` returns. -/
theorem preEnroll_challenge {m m' : Mem} {fin : Tid → Bool} {t : Tid} {chs : List Choice}
    {es : List HalEvent} {challenge : UInt64}
    (h : hal.solo fin t chs fingerprintPreEnroll m = some (es, .ret challenge, m')) :
    challenge.toNat = (Sha1.digest (tokenString m)).first64 := by
  obtain ⟨_, token, m₁, _, htoken, hrest, -⟩ := Machine.does_op.mp (Machine.does_of_solo h)
  obtain ⟨_, session, m₂, _, hsession, hrest, -⟩ := Machine.does_op.mp hrest
  obtain ⟨_, _, m₃, _, -, hrest, -⟩ := Machine.does_op.mp hrest
  obtain ⟨_, _, m₄, _, -, hrest, -⟩ := Machine.does_op.mp hrest
  obtain ⟨_, _, m₅, _, -, hrest, -⟩ := Machine.does_op.mp hrest
  obtain ⟨-, rfl, -⟩ := Machine.does_ret.mp hrest
  obtain ⟨rfl, rfl⟩ := by simpa [act] using htoken
  obtain ⟨rfl, -⟩ := by simpa [act] using hsession
  refine hashString_toNat ?_
  rw [List.length_append, Vector.length_toList, Vector.length_toList]
  decide

/-- **The challenge** is a digest of the whole token and of nothing else exactly when the token has
no zero byte and the byte behind it is zero, or the digests collide. -/
theorem hashesToken_iff {m m' : Mem} {fin : Tid → Bool} {t : Tid} {chs : List Choice}
    {es : List HalEvent} {challenge : UInt64}
    (h : hal.solo fin t chs fingerprintPreEnroll m = some (es, .ret challenge, m')) :
    HashesToken m challenge ↔
      EndsAtToken m ∨ Collide (tokenString m) m.tz.authToken.toList := by
  rw [HashesToken, preEnroll_challenge h, first64_eq_iff, tokenString_eq_iff]

/-- Two tokens that are hashed whole have different challenges, unless they collide; what lies behind
them does not matter. -/
theorem challenge_eq_iff {m₁ m₂ : Mem} {c₁ c₂ : UInt64} (h₁ : HashesToken m₁ c₁)
    (h₂ : HashesToken m₂ c₂) : c₁ = c₂ ↔ m₁.tz.authToken = m₂.tz.authToken ∨
      Collide m₁.tz.authToken.toList m₂.tz.authToken.toList := by
  rw [← UInt64.toNat_inj, h₁, h₂, first64_eq_iff, Vector.toList_inj]

/-! ## Messages of zeros -/

/-- A context that has taken the whole blocks of a message of `n` zeros, with digest `h`, and is
left with the block behind them. -/
def lastContext (h : Vector UInt32 5) (n : ℕ) : SHA1Context :=
  { SHA1Context.zero with
    messageDigest := h
    messageBlock := Vector.ofFn fun i => Sha1.lastByte n i }

/-- The truncated digest of a message of zeros, from that of its whole blocks. -/
theorem first64_zeros {n : ℕ} {h : Vector UInt32 5} (hn : n % 64 < 56)
    (hh : Sha1.chain (fun _ => 0) (n / 64) = wordsOf h) :
    (Sha1.digest (List.replicate n 0)).first64 =
      (convertHashToNumber (sha1ProcessMessageBlock (lastContext h n))).toNat := by
  have hblock : ∀ i < 64, (lastContext h n).messageBlock.getD i 0 =
      Sha1.lastByte n (64 * 0 + i) := fun i hi => by
    simp [lastContext, Vector.getD, hi]
  have hwords : ∀ t < 16, blockWord (lastContext h n).messageBlock t =
      Sha1.word (Sha1.lastByte n) t := fun t ht => by
    rw [blockWord_eq_word hblock ht, Nat.mul_zero, Nat.zero_add]
  have hlast : wordsOf (sha1ProcessMessageBlock (lastContext h n)).messageDigest =
      Sha1.digest (List.replicate n 0) := by
    rw [process_eq_compress, Sha1.compress_congr hwords, Sha1.digest_zeros hn, hh]
    rfl
  rw [convertHashToNumber_toNat, hlast]

/-- The hash value behind `n` blocks of zeros, as it is computed. -/
theorem chain_zeros {n : ℕ} {h : Vector UInt32 5}
    (hh : Sha1.initial.handTo (Sha1.zeroBlocks (fun a b c d e => [a, b, c, d, e]) n) =
      (wordsOf h).handTo fun a b c d e => [a, b, c, d, e]) :
    Sha1.chain (fun _ => 0) n = wordsOf h := by
  have hblocks := Sha1.zeroBlocks_eq (fun a b c d e => [a, b, c, d, e]) (b := fun _ => 0) (q := 0)
    n fun _ _ => rfl
  rw [Nat.zero_add, Sha1.chain, hh] at hblocks
  simp only [Sha1.Words.handTo, List.cons.injEq, UInt32.toNat_inj] at hblocks
  obtain ⟨ha, hb, hc, hd, he, -⟩ := hblocks
  have heta : wordsOf h = ⟨(wordsOf h).a, (wordsOf h).b, (wordsOf h).c, (wordsOf h).d,
      (wordsOf h).e⟩ := rfl
  rw [heta, ha, hb, hc, hd, he]

/-- 4687 blocks of zeros. -/
theorem chain_file : Sha1.chain (fun _ => 0) 4687 =
    wordsOf #v[2783336035, 2332295357, 3465537927, 3764343807, 3094825407] :=
  chain_zeros (by decide +kernel)

/-- **A file that is too long.** A file of 300001 zeros and its first 300000 bytes have the same
id, and their digests do not collide. -/
theorem long_file : ¬ CoversFile (List.replicate 300001 0) ∧
    hashFile (some (List.replicate 300001 0)) = hashFile (some (List.replicate 300000 0)) ∧
    ¬ Collide (List.replicate 300001 0) (List.replicate 300000 0) := by
  have hself : (List.replicate 300000 (0 : UInt8)).take maxFileLength = List.replicate 300000 0 :=
    List.take_replicate ..
  have htake : (List.replicate 300001 (0 : UInt8)).take maxFileLength = List.replicate 300000 0 :=
    List.take_replicate ..
  have hdigest : (Sha1.digest (List.replicate 300000 0)).first64 ≠
      (Sha1.digest (List.replicate 300001 0)).first64 := by
    rw [first64_zeros (n := 300000) (by decide) chain_file,
      first64_zeros (n := 300001) (by decide) chain_file]
    decide +kernel
  refine ⟨?_, ?_, fun h => hdigest h.digest.symm⟩
  · rw [CoversFile, hashFile_toNat, htake]
    exact hdigest
  · rw [← UInt64.toNat_inj, hashFile_toNat, hashFile_toNat, htake, hself]

/-- A device whose token is full of ones. -/
def onesToken : Mem :=
  { Mem.zero with tz := { TrustZone.zero with authToken := Vector.replicate _ 1 } }

/-- Its challenge is a digest of the token. -/
theorem hashesToken_ones : ∃ es challenge m', hal.solo (fun _ => false) 1 (List.replicate 5 .tick)
    fingerprintPreEnroll onesToken = some (es, .ret challenge, m') ∧
    HashesToken onesToken challenge := by
  obtain ⟨es, challenge, m', h⟩ : ∃ es challenge m', hal.solo (fun _ => false) 1
      (List.replicate 5 .tick) fingerprintPreEnroll onesToken = some (es, .ret challenge, m') :=
    ⟨_, _, _, rfl⟩
  refine ⟨es, challenge, m', h, (hashesToken_iff h).mpr (.inl ⟨fun b hb => ?_, rfl⟩)⟩
  obtain rfl : b = 1 := by simpa [onesToken, authTokenLength] using hb
  decide

/-- **A token of zeros**, as it is before TrustZone has sent one: the challenge is a digest of no
bytes at all. -/
theorem zero_token : ∃ es challenge m', hal.solo (fun _ => false) 1 (List.replicate 5 .tick)
    fingerprintPreEnroll .zero = some (es, .ret challenge, m') ∧
    ¬ HashesToken .zero challenge := by
  obtain ⟨es, challenge, m', h⟩ : ∃ es challenge m', hal.solo (fun _ => false) 1
      (List.replicate 5 .tick) fingerprintPreEnroll .zero = some (es, .ret challenge, m') :=
    ⟨_, _, _, rfl⟩
  refine ⟨es, challenge, m', h, fun htoken => ?_⟩
  have hstring : tokenString .zero = List.replicate 0 0 := by decide
  have hzeros : Mem.zero.tz.authToken.toList = List.replicate 112 0 := by decide
  have hchain : Sha1.chain (fun _ => 0) 1 =
      wordsOf #v[2461271269, 1448643821, 1813695822, 3204792168, 167197331] :=
    chain_zeros (by decide +kernel)
  rw [HashesToken, preEnroll_challenge h, hstring, hzeros, first64_zeros (n := 112) (by decide) hchain,
    first64_zeros (n := 0) (h := #v[0x67452301, 0xEFCDAB89, 0x98BADCFE, 0x10325476, 0xC3D2E1F0])
      (by decide) rfl] at htoken
  exact absurd htoken (by decide +kernel)

end KlteCommon.Analysis
