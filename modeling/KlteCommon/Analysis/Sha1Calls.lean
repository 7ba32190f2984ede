import KlteCommon.Analysis.Sha1Conformance

/-!
# The context of the hash between calls

`SHA1Input` and `SHA1Result` may be called in any order and any number of times. The context then
holds a block that is filled up to an index, the length of what was taken in two halves, and the two
flags that decide whether anything is taken or padded at all.

The ladder: the loop of a longer string is the loop of its parts (`sha1InputLoop_append`), so the
input does not depend on how it is cut (`sha1Input_append`). `Taken` ties the context to the bytes it
has taken; a byte keeps it (`Taken.byte`), and so do the loop, a call and a sequence of calls
(`Taken.run`), with the byte on which the length overflows known exactly (`corrupted_byte`); what
follows for the callers is `represents_run`. Behind either flag a call leaves everything but the flag
(`run_of_closed`), which makes the finalisation final (`finalisation_final`).
-/

set_option autoImplicit false

namespace KlteCommon.Analysis

open KlteCommon.Fingerprint

/-! ## Chunks -/

section chunks

variable (c : SHA1Context)

/-- Processing a block keeps the flag of the result. -/
@[simp] theorem process_computed : (sha1ProcessMessageBlock c).computed = c.computed := rfl

/-- And that of the corruption. -/
@[simp] theorem process_corrupted : (sha1ProcessMessageBlock c).corrupted = c.corrupted := rfl

/-- So does taking a byte. -/
theorem sha1InputByte_computed (b : UInt8) : (sha1InputByte c b).computed = c.computed := by
  unfold sha1InputByte
  simp only
  split <;> rfl

/-- The flag after a byte. -/
theorem sha1InputByte_corrupted (b : UInt8) : (sha1InputByte c b).corrupted =
    if c.lengthLow + 8 = 0 ∧ (if c.lengthLow + 8 = 0 then c.lengthHigh + 1 else c.lengthHigh) = 0
    then 1 else c.corrupted := by
  unfold sha1InputByte
  simp only
  split <;> rfl

/-- And taking many. -/
theorem sha1InputLoop_computed (bytes : List UInt8) :
    (sha1InputLoop bytes c).computed = c.computed := by
  induction bytes generalizing c with
  | nil => rfl
  | cons b bytes ih =>
    rw [sha1InputLoop]
    split
    · rfl
    · rw [ih, sha1InputByte_computed]

variable {c}

/-- The loop does not start on a corrupted context. -/
theorem sha1InputLoop_of_corrupted (h : c.corrupted ≠ 0) (bytes : List UInt8) :
    sha1InputLoop bytes c = c := by
  cases bytes with
  | nil => rfl
  | cons b bytes => rw [sha1InputLoop, if_pos h]

/-- The loop sets the flag to 1 or leaves it. -/
theorem sha1InputLoop_corrupted (h : c.corrupted = 0) (bytes : List UInt8) :
    (sha1InputLoop bytes c).corrupted = 0 ∨ (sha1InputLoop bytes c).corrupted = 1 := by
  induction bytes generalizing c with
  | nil => exact .inl h
  | cons b bytes ih =>
    rw [sha1InputLoop, if_neg (not_not.mpr h)]
    have hbyte := sha1InputByte_corrupted c b
    by_cases hover : c.lengthLow + 8 = 0 ∧
        (if c.lengthLow + 8 = 0 then c.lengthHigh + 1 else c.lengthHigh) = 0
    · rw [if_pos hover] at hbyte
      rw [sha1InputLoop_of_corrupted (by rw [hbyte]; decide)]
      exact .inr hbyte
    · rw [if_neg hover, h] at hbyte
      exact ih hbyte

/-- The loop over two parts. -/
theorem sha1InputLoop_append (a b : List UInt8) :
    sha1InputLoop (a ++ b) c = sha1InputLoop b (sha1InputLoop a c) := by
  induction a generalizing c with
  | nil => rfl
  | cons x a ih =>
    by_cases hcorrupted : c.corrupted ≠ 0
    · rw [sha1InputLoop_of_corrupted hcorrupted, sha1InputLoop_of_corrupted hcorrupted,
        sha1InputLoop_of_corrupted hcorrupted]
    · rw [List.cons_append, sha1InputLoop, sha1InputLoop, if_neg hcorrupted, if_neg hcorrupted, ih]

/-- No bytes, no change. -/
theorem sha1Input_nil : sha1Input c [] = c := if_pos rfl

/-- A context that takes nothing any more. -/
theorem sha1Input_of_closed (h : c.computed ≠ 0 ∨ c.corrupted ≠ 0) {message : List UInt8}
    (hm : message ≠ []) : sha1Input c message = { c with corrupted := 1 } := by
  rw [sha1Input, if_neg hm, if_pos h]

/-- A context that takes the message. -/
theorem sha1Input_of_open (h : ¬ (c.computed ≠ 0 ∨ c.corrupted ≠ 0)) (message : List UInt8) :
    sha1Input c message = sha1InputLoop message c := by
  rw [sha1Input, if_neg h]
  split
  · rename_i hm
    rw [hm, sha1InputLoop]
  · rfl

/-- **Chunks.** Two inputs leave the context that one input of both leaves, wherever the message is
cut, whether the length overflows in either part, and whatever the flags are. -/
theorem sha1Input_append (c : SHA1Context) (a b : List UInt8) :
    sha1Input (sha1Input c a) b = sha1Input c (a ++ b) := by
  by_cases ha : a = []
  · rw [ha, sha1Input_nil, List.nil_append]
  by_cases hb : b = []
  · rw [hb, sha1Input_nil, List.append_nil]
  have hab : a ++ b ≠ [] := List.append_ne_nil_of_left_ne_nil ha b
  by_cases hclosed : c.computed ≠ 0 ∨ c.corrupted ≠ 0
  · rw [sha1Input_of_closed hclosed ha, sha1Input_of_closed hclosed hab]
    exact sha1Input_of_closed (.inr (by decide : (1 : CInt) ≠ 0)) hb
  obtain ⟨hcomputed, hcorrupted⟩ : c.computed = 0 ∧ c.corrupted = 0 := by simpa using hclosed
  rw [sha1Input_of_open hclosed, sha1Input_of_open hclosed, sha1InputLoop_append]
  have hkept := sha1InputLoop_computed c a
  obtain hsound | hover := sha1InputLoop_corrupted hcorrupted a
  · exact sha1Input_of_open (by simp [hkept, hcomputed, hsound]) b
  · -- the length overflowed in the first part: both the call and the loop stop at once
    have hne : (sha1InputLoop a c).corrupted ≠ 0 := by rw [hover]; decide
    rw [sha1Input_of_closed (.inr hne) hb, sha1InputLoop_of_corrupted hne, ← hover]

end chunks

/-! ## Calls -/

/-- A call on the context. -/
inductive HashCall
  | input (message : List UInt8)
  | result
  deriving DecidableEq

/-- What a call leaves. -/
def HashCall.run (c : SHA1Context) : HashCall → SHA1Context
  | .input message => sha1Input c message
  | .result => (sha1Result c).2

/-- What a sequence of calls leaves. -/
def runHash (calls : List HashCall) (c : SHA1Context) : SHA1Context := calls.foldl HashCall.run c

/-- A call brings bytes. -/
def HashCall.feeds : HashCall → Bool
  | .input message => message ≠ []
  | .result => false

/-- The bytes the loop of `SHA1Input` puts into the block. -/
def takenByLoop : List UInt8 → SHA1Context → List UInt8
  | [], _ => []
  | b :: bs, c => if c.corrupted ≠ 0 then [] else b :: takenByLoop bs (sha1InputByte c b)

/-- The bytes of a call that are accepted. -/
def HashCall.taken (c : SHA1Context) : HashCall → List UInt8
  | .input message =>
    if message = [] then [] else if c.computed ≠ 0 ∨ c.corrupted ≠ 0 then []
    else takenByLoop message c
  | .result => []

/-- The bytes of a sequence of calls that are accepted. -/
def accepted : List HashCall → SHA1Context → List UInt8
  | [], _ => []
  | call :: calls, c => call.taken c ++ accepted calls (call.run c)

/-! ## The places of the block that are accessed -/

/-- The reads of `SHA1ProcessMessageBlock`. -/
def processAccesses : List ℕ :=
  (List.range 16).flatMap fun t => [t * 4, t * 4 + 1, t * 4 + 2, t * 4 + 3]

/-- The writes of a round of the loop of `SHA1Input`, and the reads of a full block. -/
def byteAccesses (c : SHA1Context) (b : UInt8) : List ℕ :=
  c.messageBlockIndex :: if (c.push b).messageBlockIndex = 64 then processAccesses else []

/-- The accesses of the loop of `SHA1Input`. -/
def loopAccesses : List UInt8 → SHA1Context → List ℕ
  | [], _ => []
  | b :: bs, c =>
    if c.corrupted ≠ 0 then [] else byteAccesses c b ++ loopAccesses bs (sha1InputByte c b)

/-- The writes of `while (Message_Block_Index < n) Message_Block[Message_Block_Index++] = 0`. -/
def zeroAccesses (c : SHA1Context) (n : ℕ) : List ℕ :=
  List.range' c.messageBlockIndex (n - c.messageBlockIndex)

/-- The accesses of `SHA1PadMessage`: the mark, the zeros, the length and the full blocks. -/
def padAccesses (c : SHA1Context) : List ℕ :=
  let zeros :=
    if c.messageBlockIndex > 55 then
      zeroAccesses (c.push 0x80) 64 ++ processAccesses ++
        zeroAccesses (sha1ProcessMessageBlock ((c.push 0x80).zeroTo 64)) 56
    else zeroAccesses (c.push 0x80) 56
  c.messageBlockIndex :: zeros ++ [56, 57, 58, 59, 60, 61, 62, 63] ++ processAccesses

/-- The accesses of a call. -/
def HashCall.accesses (c : SHA1Context) : HashCall → List ℕ
  | .input message =>
    if message = [] then [] else if c.computed ≠ 0 ∨ c.corrupted ≠ 0 then []
    else loopAccesses message c
  | .result =>
    if c.corrupted ≠ 0 then [] else if c.computed ≠ 0 then [] else padAccesses c

/-! ## The context and the bytes it has taken -/

/-- The context has taken these bytes, unless one of its flags is set; its index is in the block
in any case. -/
structure Taken (bytes : List UInt8) (c : SHA1Context) : Prop where
  index_lt : c.messageBlockIndex < 64
  bits : c.computed = 0 → c.corrupted = 0 →
    c.lengthHigh.toNat * 2 ^ 32 + c.lengthLow.toNat = 8 * bytes.length
  index : c.computed = 0 → c.corrupted = 0 → c.messageBlockIndex = bytes.length % 64
  block : c.computed = 0 → c.corrupted = 0 → c.messageBlock.toList.take c.messageBlockIndex =
    bytes.drop (bytes.length - bytes.length % 64)

/-- What the callers may rely on: the context has taken these bytes, the next input corrupts it
exactly if it must, and no call reaches beyond the block. -/
structure Represents (bytes : List UInt8) (c : SHA1Context) : Prop extends Taken bytes c where
  corrupts : ∀ message, message ≠ [] → c.corrupted = 0 →
    ((sha1Input c message).corrupted ≠ 0 ↔
      c.computed ≠ 0 ∨ 2 ^ 64 ≤ 8 * (bytes.length + message.length))
  inside : ∀ call : HashCall, ∀ i ∈ call.accesses c, i < 64

section taken

variable {c : SHA1Context} {bytes : List UInt8} {b : UInt8} {n : ℕ}

/-- The byte on which the length comes to `2 ^ 64` bits. -/
theorem length_full {low high : UInt32} (h : high.toNat * 2 ^ 32 + low.toNat = 8 * n)
    (hn : 2 ^ 61 ≤ n + 1) : low + 8 = 0 ∧ (if low + 8 = 0 then high + 1 else high) = 0 := by
  have hlow := low.toNat_lt
  have hhigh := high.toNat_lt
  have hlow' : low + 8 = 0 := by
    apply UInt32.toNat_inj.mp
    have hsum : (low + 8).toNat = (low.toNat + 8) % 2 ^ 32 := UInt32.toNat_add ..
    rw [hsum, show low.toNat + 8 = 2 ^ 32 by omega]
    rfl
  refine ⟨hlow', ?_⟩
  rw [if_pos hlow']
  apply UInt32.toNat_inj.mp
  have hsum : (high + 1).toNat = (high.toNat + 1) % 2 ^ 32 := UInt32.toNat_add ..
  rw [hsum, show high.toNat + 1 = 2 ^ 32 by omega]
  rfl

/-- **The overflow.** A byte corrupts a context exactly if it brings the length to `2 ^ 64` bits. -/
theorem corrupted_byte (h : Taken bytes c) (hcomputed : c.computed = 0) (hcorrupted : c.corrupted = 0)
    (b : UInt8) :
    (sha1InputByte c b).corrupted = if bytes.length + 1 < 2 ^ 61 then 0 else 1 := by
  have hbits := h.bits hcomputed hcorrupted
  rw [sha1InputByte_corrupted]
  by_cases hn : bytes.length + 1 < 2 ^ 61
  · rw [if_pos hn, if_neg (length_succ hbits hn).2, hcorrupted]
  · rw [if_neg hn, if_pos (length_full hbits (by omega))]

/-- One more element that was set. -/
theorem take_set_succ {l : List UInt8} {i : ℕ} (hi : i < l.length) (b : UInt8) :
    (l.set i b).take (i + 1) = l.take i ++ [b] := by
  rw [List.take_add_one, List.take_set_of_le (Nat.le_refl i)]
  simp [hi]

/-- The bytes of the last block, when one more comes. -/
theorem drop_last_block (bytes : List UInt8) (b : UInt8) :
    (bytes ++ [b]).drop (bytes.length - bytes.length % 64) =
      bytes.drop (bytes.length - bytes.length % 64) ++ [b] :=
  List.drop_append_of_le_length (Nat.sub_le _ _)

/-- **One byte.** -/
theorem Taken.byte (h : Taken bytes c) (hcomputed : c.computed = 0) (hcorrupted : c.corrupted = 0)
    (b : UInt8) : Taken (bytes ++ [b]) (sha1InputByte c b) := by
  have hindex := h.index hcomputed hcorrupted
  have hlt := h.index_lt
  have hbits : (sha1InputByte c b).corrupted = 0 → (sha1InputByte c b).lengthHigh.toNat * 2 ^ 32 +
      (sha1InputByte c b).lengthLow.toNat = 8 * (bytes ++ [b]).length := by
    intro hsound
    rw [corrupted_byte h hcomputed hcorrupted] at hsound
    have hn : bytes.length + 1 < 2 ^ 61 := by
      by_contra hn
      rw [if_neg hn] at hsound
      exact absurd hsound (by decide)
    have hlength := (length_succ (h.bits hcomputed hcorrupted) hn).1
    rw [List.length_append, List.length_singleton]
    unfold sha1InputByte
    simp only
    split <;> exact hlength
  by_cases hfull : c.messageBlockIndex = 63
  · -- the byte completes the block
    have hpushed : (c.push b).messageBlockIndex = 64 := congrArg (· + 1) hfull
    have hzero : (sha1InputByte c b).messageBlockIndex = 0 := by
      unfold sha1InputByte
      simp only [if_pos hpushed]
      rfl
    have hmod : (bytes ++ [b]).length % 64 = 0 := by
      rw [List.length_append, List.length_singleton]
      omega
    refine ⟨by omega, fun _ => hbits, fun _ _ => by rw [hzero, hmod], fun _ _ => ?_⟩
    rw [hzero, hmod, Nat.sub_zero, List.drop_length, List.take_zero]
  · have hpushed : (c.push b).messageBlockIndex ≠ 64 := fun h => hfull (by simpa [SHA1Context.push] using h)
    have hindex' : (sha1InputByte c b).messageBlockIndex = c.messageBlockIndex + 1 := by
      unfold sha1InputByte
      simp only [if_neg hpushed]
      rfl
    have hblock : (sha1InputByte c b).messageBlock =
        c.messageBlock.setIfInBounds c.messageBlockIndex b := by
      unfold sha1InputByte
      simp only [if_neg hpushed]
      rfl
    have hlen : (bytes ++ [b]).length = bytes.length + 1 := by simp
    have hmod : (bytes ++ [b]).length % 64 = bytes.length % 64 + 1 := by omega
    have hstart : (bytes ++ [b]).length - (bytes ++ [b]).length % 64 =
        bytes.length - bytes.length % 64 := by omega
    refine ⟨by omega, fun _ => hbits, fun _ _ => by rw [hindex', hmod, hindex], fun _ _ => ?_⟩
    rw [hindex', hblock, hstart, drop_last_block, ← h.block hcomputed hcorrupted,
      Vector.toList_setIfInBounds]
    exact take_set_succ (by simpa using hlt) b

/-- The loop. -/
theorem Taken.loop (h : Taken bytes c) (hcomputed : c.computed = 0) (message : List UInt8) :
    Taken (bytes ++ takenByLoop message c) (sha1InputLoop message c) := by
  induction message generalizing c bytes with
  | nil => simpa [takenByLoop, sha1InputLoop] using h
  | cons b message ih =>
    by_cases hcorrupted : c.corrupted = 0
    · rw [takenByLoop, sha1InputLoop, if_neg (not_not.mpr hcorrupted),
        if_neg (not_not.mpr hcorrupted), List.append_cons]
      exact ih (h.byte hcomputed hcorrupted b) ((sha1InputByte_computed c b).trans hcomputed)
    · rw [takenByLoop, sha1InputLoop, if_pos hcorrupted, if_pos hcorrupted, List.append_nil]
      exact h

/-- The loop corrupts a context exactly if the message brings the length to `2 ^ 64` bits. -/
theorem Taken.loop_corrupts (h : Taken bytes c) (hcomputed : c.computed = 0)
    (hcorrupted : c.corrupted = 0) (message : List UInt8) :
    (sha1InputLoop message c).corrupted ≠ 0 ↔ 2 ^ 64 ≤ 8 * (bytes.length + message.length) := by
  induction message generalizing c bytes with
  | nil =>
    have hbits := h.bits hcomputed hcorrupted
    have hlow := c.lengthLow.toNat_lt
    have hhigh := c.lengthHigh.toNat_lt
    refine iff_of_false (not_not.mpr hcorrupted) ?_
    rw [List.length_nil]
    omega
  | cons b message ih =>
    have hbyte := corrupted_byte h hcomputed hcorrupted b
    rw [sha1InputLoop, if_neg (not_not.mpr hcorrupted), List.length_cons]
    by_cases hn : bytes.length + 1 < 2 ^ 61
    · rw [if_pos hn] at hbyte
      rw [ih (h.byte hcomputed hcorrupted b) ((sha1InputByte_computed c b).trans hcomputed) hbyte,
        List.length_append, List.length_singleton]
      omega
    · rw [if_neg hn] at hbyte
      rw [sha1InputLoop_of_corrupted (by rw [hbyte]; decide), hbyte]
      exact iff_of_true (by decide) (by omega)

/-- The padding ends with a full block. -/
theorem sha1PadMessage_index (c : SHA1Context) : (sha1PadMessage c).messageBlockIndex = 0 := rfl

/-- **One call.** -/
theorem Taken.run (h : Taken bytes c) (call : HashCall) :
    Taken (bytes ++ call.taken c) (call.run c) := by
  cases call with
  | input message =>
    by_cases hm : message = []
    · simpa [HashCall.run, HashCall.taken, hm, sha1Input_nil] using h
    by_cases hclosed : c.computed ≠ 0 ∨ c.corrupted ≠ 0
    · rw [HashCall.run, HashCall.taken, if_neg hm, if_pos hclosed, List.append_nil,
        sha1Input_of_closed hclosed hm]
      have hne : (1 : CInt) ≠ 0 := by decide
      exact ⟨h.index_lt, fun _ hsound => absurd hsound hne, fun _ hsound => absurd hsound hne,
        fun _ hsound => absurd hsound hne⟩
    · rw [HashCall.run, HashCall.taken, if_neg hm, if_neg hclosed, sha1Input_of_open hclosed]
      exact h.loop (by simpa using (not_or.mp hclosed).1) message
  | result =>
    rw [HashCall.run, HashCall.taken, List.append_nil, sha1Result]
    split
    · exact h
    · split
      · exact h
      · have hne : (1 : CInt) ≠ 0 := by decide
        exact ⟨by simp [sha1PadMessage_index], fun hpending => absurd hpending hne,
          fun hpending => absurd hpending hne, fun hpending => absurd hpending hne⟩

/-! ## Where the block is accessed -/

/-- Processing a block accesses the block only. -/
theorem lt_of_mem_process {i : ℕ} (h : i ∈ processAccesses) : i < 64 := by
  simp only [processAccesses, List.mem_flatMap, List.mem_range, List.mem_cons,
    List.not_mem_nil, or_false] at h
  omega

/-- So does filling it with zeros. -/
theorem lt_of_mem_zero {i : ℕ} (hn : n ≤ 64) (h : i ∈ zeroAccesses c n) : i < 64 := by
  have hmem := List.mem_range'_1.mp h
  omega

/-- A round of the loop accesses the block only. -/
theorem lt_of_mem_byte {i : ℕ} (hindex : c.messageBlockIndex < 64) (h : i ∈ byteAccesses c b) :
    i < 64 := by
  rcases List.mem_cons.mp h with rfl | h
  · exact hindex
  · split at h
    · exact lt_of_mem_process h
    · cases h

/-- The padding accesses the block only. -/
theorem lt_of_mem_pad {i : ℕ} (hindex : c.messageBlockIndex < 64) (h : i ∈ padAccesses c) :
    i < 64 := by
  simp only [padAccesses, List.cons_append, List.mem_cons, List.mem_append] at h
  rcases h with rfl | (hzeros | hlength) | hprocess
  · exact hindex
  · split at hzeros
    · rcases List.mem_append.mp hzeros with hmem | hmem
      · rcases List.mem_append.mp hmem with hmem | hmem
        · exact lt_of_mem_zero (by decide) hmem
        · exact lt_of_mem_process hmem
      · exact lt_of_mem_zero (by decide) hmem
    · exact lt_of_mem_zero (by decide) hzeros
  · simp only [List.not_mem_nil, or_false] at hlength
    omega
  · exact lt_of_mem_process hprocess

/-- The loop accesses the block only. -/
theorem Taken.lt_of_mem_loop (h : Taken bytes c) (hcomputed : c.computed = 0) {message : List UInt8}
    {i : ℕ} (hi : i ∈ loopAccesses message c) : i < 64 := by
  induction message generalizing c bytes with
  | nil => cases hi
  | cons b message ih =>
    rw [loopAccesses] at hi
    split at hi
    · cases hi
    · rename_i hcorrupted
      rcases List.mem_append.mp hi with hmem | hmem
      · exact lt_of_mem_byte h.index_lt hmem
      · exact ih (h.byte hcomputed (not_not.mp hcorrupted) b)
          ((sha1InputByte_computed c b).trans hcomputed) hmem

/-- A call accesses the block only. -/
theorem Taken.lt_of_mem_call (h : Taken bytes c) (call : HashCall) {i : ℕ}
    (hi : i ∈ call.accesses c) : i < 64 := by
  cases call with
  | input message =>
    rw [HashCall.accesses] at hi
    split at hi
    · cases hi
    · split at hi
      · cases hi
      · rename_i hopen
        exact h.lt_of_mem_loop (by simpa using (not_or.mp hopen).1) hi
  | result =>
    rw [HashCall.accesses] at hi
    split at hi
    · cases hi
    · split at hi
      · cases hi
      · exact lt_of_mem_pad h.index_lt hi

/-- What follows for the next call. -/
theorem Taken.represents (h : Taken bytes c) : Represents bytes c where
  toTaken := h
  corrupts message hm hcorrupted := by
    by_cases hcomputed : c.computed = 0
    · have hopen : ¬ (c.computed ≠ 0 ∨ c.corrupted ≠ 0) := by simp [hcomputed, hcorrupted]
      rw [sha1Input_of_open hopen, h.loop_corrupts hcomputed hcorrupted]
      simp [hcomputed]
    · rw [sha1Input_of_closed (.inl hcomputed) hm]
      simp [hcomputed]
  inside call i hi := h.lt_of_mem_call call hi

end taken

/-- A sequence of calls. -/
theorem Taken.runHash {c : SHA1Context} {bytes : List UInt8} (h : Taken bytes c)
    (calls : List HashCall) : Taken (bytes ++ accepted calls c) (runHash calls c) := by
  induction calls generalizing c bytes with
  | nil => simpa [accepted, Analysis.runHash] using h
  | cons call calls ih =>
    rw [accepted, ← List.append_assoc]
    exact ih (h.run call)

/-- A context that was reset has taken nothing. -/
theorem sha1Reset_taken (sha : SHA1Context) : Taken [] (sha1Reset sha) where
  index_lt := by simp [sha1Reset]
  bits _ _ := by simp [sha1Reset]
  index _ _ := rfl
  block _ _ := by simp [sha1Reset]

/-- **The context.** After any calls behind a reset the context represents the bytes they brought. -/
theorem represents_run (sha : SHA1Context) (calls : List HashCall) :
    Represents (accepted calls (sha1Reset sha)) (runHash calls (sha1Reset sha)) :=
  ((sha1Reset_taken sha).runHash calls).represents

/-! ## Finalisation -/

section final

variable {c : SHA1Context}

/-- One call behind a flag. -/
theorem HashCall.run_of_closed (h : c.computed ≠ 0 ∨ c.corrupted ≠ 0) (call : HashCall) :
    call.run c = if call.feeds then { c with corrupted := 1 } else c := by
  cases call with
  | input message =>
    by_cases hm : message = []
    · rw [HashCall.run, hm, sha1Input_nil]
      rfl
    · rw [HashCall.run, sha1Input_of_closed h hm, HashCall.feeds, if_pos (decide_eq_true hm)]
  | result =>
    rw [HashCall.run, sha1Result]
    split
    · rfl
    · rename_i hsound
      rw [if_pos (h.resolve_right hsound)]
      rfl

/-- **Behind a flag** calls leave everything but the flag, which the first byte sets. -/
theorem run_of_closed (h : c.computed ≠ 0 ∨ c.corrupted ≠ 0) (calls : List HashCall) :
    runHash calls c = if calls.any HashCall.feeds then { c with corrupted := 1 } else c := by
  induction calls generalizing c with
  | nil => rfl
  | cons call calls ih =>
    have hrun : runHash (call :: calls) c = runHash calls (call.run c) := rfl
    rw [hrun, call.run_of_closed h, List.any_cons]
    cases call.feeds with
    | false => exact ih h
    | true =>
      have hne : (1 : CInt) ≠ 0 := by decide
      rw [if_pos rfl, ih (.inr hne)]
      split <;> rfl

/-- Behind a flag no call accesses the block. -/
theorem accesses_of_closed (h : c.computed ≠ 0 ∨ c.corrupted ≠ 0) (call : HashCall) :
    call.accesses c = [] := by
  cases call with
  | input message => rw [HashCall.accesses, if_pos h, ite_self]
  | result =>
    rw [HashCall.accesses]
    split
    · rfl
    · rename_i hsound
      rw [if_pos (h.resolve_right hsound)]

/-- Filling with zeros leaves the flag. -/
theorem zeroTo_corrupted (c : SHA1Context) (n : ℕ) : (c.zeroTo n).corrupted = c.corrupted := by
  unfold SHA1Context.zeroTo
  generalize n - c.messageBlockIndex = k
  induction k with
  | zero => rfl
  | succ k ih =>
    rw [List.range_succ, List.foldl_append]
    exact ih

/-- The padding leaves the flag. -/
theorem sha1PadMessage_corrupted (c : SHA1Context) : (sha1PadMessage c).corrupted = c.corrupted := by
  unfold sha1PadMessage
  simp only [process_corrupted]
  split
  · rw [zeroTo_corrupted, process_corrupted, zeroTo_corrupted]
    rfl
  · rw [zeroTo_corrupted]
    rfl

/-- `SHA1Result` leaves the flag it looks at first. -/
theorem sha1Result_corrupted (c : SHA1Context) : (sha1Result c).2.corrupted = c.corrupted := by
  unfold sha1Result
  split
  · rfl
  · split
    · rfl
    · exact sha1PadMessage_corrupted c

/-- It returns 1 exactly for a context that is not corrupted, and leaves it computed. -/
theorem sha1Result_fst (c : SHA1Context) :
    (sha1Result c).1 = if c.corrupted = 0 then 1 else 0 := by
  by_cases hsound : c.corrupted = 0
  · rw [sha1Result, if_neg (not_not.mpr hsound), if_pos hsound]
    split <;> rfl
  · rw [sha1Result, if_pos hsound, if_neg hsound]

/-- A sound context is closed by its result. -/
theorem sha1Result_computed (h : c.corrupted = 0) : (sha1Result c).2.computed ≠ 0 := by
  rw [sha1Result, if_neg (not_not.mpr h)]
  split
  · rename_i hcomputed
    exact hcomputed
  · exact show (1 : CInt) ≠ 0 by decide

/-- The flag is 0 or 1. -/
theorem corrupted_run (hc : c.corrupted = 0 ∨ c.corrupted = 1) (calls : List HashCall) :
    (runHash calls c).corrupted = 0 ∨ (runHash calls c).corrupted = 1 := by
  induction calls generalizing c with
  | nil => exact hc
  | cons call calls ih =>
    refine ih ?_
    cases call with
    | result =>
      rw [HashCall.run, sha1Result_corrupted]
      exact hc
    | input message =>
      rw [HashCall.run]
      by_cases hclosed : c.computed ≠ 0 ∨ c.corrupted ≠ 0
      · rw [← HashCall.run, HashCall.run_of_closed hclosed]
        split
        · exact .inr rfl
        · exact hc
      · rw [sha1Input_of_open hclosed]
        exact sha1InputLoop_corrupted (not_not.mp (not_or.mp hclosed).2) message

/-- **Finalisation is final.** Once `SHA1Result` has returned 1, later calls leave the digest, and it
returns 1 until the first of them that brings a byte, and 0 from then on; a corrupted context stays as
it is, never returns 1 and is never padded. -/
theorem finalisation_final (sha : SHA1Context) (calls : List HashCall) :
    ((sha1Result (runHash calls (sha1Reset sha))).1 = 1 → ∀ later,
      (runHash later (sha1Result (runHash calls (sha1Reset sha))).2).messageDigest =
        (sha1Result (runHash calls (sha1Reset sha))).2.messageDigest ∧
      (sha1Result (runHash later (sha1Result (runHash calls (sha1Reset sha))).2)).1 =
        if later.any HashCall.feeds then 0 else 1) ∧
    ((runHash calls (sha1Reset sha)).corrupted ≠ 0 → ∀ later,
      runHash later (runHash calls (sha1Reset sha)) = runHash calls (sha1Reset sha) ∧
      (sha1Result (runHash later (runHash calls (sha1Reset sha)))).1 = 0 ∧
      ∀ call : HashCall, call.accesses (runHash later (runHash calls (sha1Reset sha))) = []) := by
  have hflag := corrupted_run (.inl (show (sha1Reset sha).corrupted = 0 from rfl)) calls
  generalize runHash calls (sha1Reset sha) = c at hflag
  refine ⟨fun hresult later => ?_, fun hcorrupted later => ?_⟩
  · have hsound : c.corrupted = 0 := by
      by_contra hne
      rw [sha1Result_fst, if_neg hne] at hresult
      exact absurd hresult (by decide)
    have hafter := (sha1Result_corrupted c).trans hsound
    rw [run_of_closed (.inl (sha1Result_computed hsound)), sha1Result_fst]
    split
    · exact ⟨rfl, if_neg (show (1 : CInt) ≠ 0 by decide)⟩
    · exact ⟨rfl, rfl⟩
  · have hone : c.corrupted = 1 := hflag.resolve_left hcorrupted
    have hsame : runHash later c = c := by
      rw [run_of_closed (.inr hcorrupted), ← hone, ite_self]
    rw [hsame, sha1Result_fst, if_neg hcorrupted]
    exact ⟨rfl, rfl, accesses_of_closed (.inr hcorrupted)⟩

end final

end KlteCommon.Analysis
