import KlteCommon.Fingerprint.Types

/-!
# The hash of the fingerprint HAL

`hash.c` as it stands: SHA-1 over a context that takes one byte at a time, and the two 64-bit
numbers the HAL derives from it, the authenticator id of the database file and the challenge of
the auth token.
-/

set_option autoImplicit false

namespace KlteCommon.Fingerprint

/-- `MAX_FILE_LENGTH` -/
def maxFileLength : ℕ := 300000

/-- `SHA1CircularShift` -/
def sha1CircularShift (bits : UInt32) (word : UInt32) : UInt32 :=
  (word <<< bits) ||| (word >>> (32 - bits))

/-- `SHA1Context` -/
structure SHA1Context where
  messageDigest : Vector UInt32 5
  lengthLow : UInt32
  lengthHigh : UInt32
  messageBlock : Vector UInt8 64
  messageBlockIndex : ℕ
  computed : CInt
  corrupted : CInt

/-- `SHA1Reset`; the block keeps its bytes. -/
def sha1Reset (context : SHA1Context) : SHA1Context :=
  { context with
    lengthLow := 0
    lengthHigh := 0
    messageBlockIndex := 0
    messageDigest := #v[0x67452301, 0xEFCDAB89, 0x98BADCFE, 0x10325476, 0xC3D2E1F0]
    computed := 0
    corrupted := 0 }

/-- Word `t` of the block, big-endian. -/
def blockWord (block : Vector UInt8 64) (t : ℕ) : UInt32 :=
  ((block.getD (t * 4) 0).toUInt32 <<< 24) ||| ((block.getD (t * 4 + 1) 0).toUInt32 <<< 16) |||
    ((block.getD (t * 4 + 2) 0).toUInt32 <<< 8) ||| (block.getD (t * 4 + 3) 0).toUInt32

/-- The 80 words `W` of `SHA1ProcessMessageBlock`. -/
def messageSchedule (block : Vector UInt8 64) : Array UInt32 :=
  (List.range' 16 64).foldl
    (fun W t => W.push (sha1CircularShift 1
      (W.getD (t - 3) 0 ^^^ W.getD (t - 8) 0 ^^^ W.getD (t - 14) 0 ^^^ W.getD (t - 16) 0)))
    ((List.range 16).map (blockWord block)).toArray

/-- The five working words `A`, `B`, `C`, `D` and `E`. -/
structure Sha1Words where
  a : UInt32
  b : UInt32
  c : UInt32
  d : UInt32
  e : UInt32

/-- The working words at the start of a block: those of the digest. -/
def Sha1Words.ofDigest (h : Vector UInt32 5) : Sha1Words := ⟨h[0], h[1], h[2], h[3], h[4]⟩

/-- One round: `f` is the round's function of `B`, `C` and `D`, `k` its constant. -/
def sha1Round (f : UInt32 → UInt32 → UInt32 → UInt32) (k : UInt32) (W : Array UInt32)
    (w : Sha1Words) (t : ℕ) : Sha1Words where
  a := sha1CircularShift 5 w.a + f w.b w.c w.d + w.e + W.getD t 0 + k
  b := w.a
  c := sha1CircularShift 30 w.b
  d := w.c
  e := w.d

/-- `SHA1ProcessMessageBlock` -/
def sha1ProcessMessageBlock (context : SHA1Context) : SHA1Context :=
  let W := messageSchedule context.messageBlock
  let h := context.messageDigest
  let w : Sha1Words := ⟨h[0], h[1], h[2], h[3], h[4]⟩
  let w := (List.range' 0 20).foldl
    (sha1Round (fun b c d => (b &&& c) ||| (~~~b &&& d)) 0x5A827999 W) w
  let w := (List.range' 20 20).foldl (sha1Round (fun b c d => b ^^^ c ^^^ d) 0x6ED9EBA1 W) w
  let w := (List.range' 40 20).foldl
    (sha1Round (fun b c d => (b &&& c) ||| (b &&& d) ||| (c &&& d)) 0x8F1BBCDC W) w
  let w := (List.range' 60 20).foldl (sha1Round (fun b c d => b ^^^ c ^^^ d) 0xCA62C1D6 W) w
  { context with
    messageDigest := #v[h[0] + w.a, h[1] + w.b, h[2] + w.c, h[3] + w.d, h[4] + w.e]
    messageBlockIndex := 0 }

/-- `context->Message_Block[context->Message_Block_Index++] = b` -/
def SHA1Context.push (context : SHA1Context) (b : UInt8) : SHA1Context :=
  { context with
    messageBlock := context.messageBlock.setIfInBounds context.messageBlockIndex b
    messageBlockIndex := context.messageBlockIndex + 1 }

/-- The loop body of `SHA1Input`: the byte, the 64-bit length with its overflow, a full block. -/
def sha1InputByte (context : SHA1Context) (b : UInt8) : SHA1Context :=
  let c := context.push b
  let low := c.lengthLow + 8
  let high := if low = 0 then c.lengthHigh + 1 else c.lengthHigh
  let c := { c with
    lengthLow := low
    lengthHigh := high
    corrupted := if low = 0 ∧ high = 0 then 1 else c.corrupted }
  if c.messageBlockIndex = 64 then sha1ProcessMessageBlock c else c

/-- The loop of `SHA1Input`. -/
def sha1InputLoop : List UInt8 → SHA1Context → SHA1Context
  | [], context => context
  | b :: bs, context =>
    if context.corrupted ≠ 0 then context else sha1InputLoop bs (sha1InputByte context b)

/-- `SHA1Input` of all the bytes of a string. -/
def sha1Input (context : SHA1Context) (message : List UInt8) : SHA1Context :=
  if message = [] then context
  else if context.computed ≠ 0 ∨ context.corrupted ≠ 0 then { context with corrupted := 1 }
  else sha1InputLoop message context

/-- `while (Message_Block_Index < n) Message_Block[Message_Block_Index++] = 0` -/
def SHA1Context.zeroTo (context : SHA1Context) (n : ℕ) : SHA1Context :=
  (List.range (n - context.messageBlockIndex)).foldl (fun c _ => c.push 0) context

/-- `SHA1PadMessage` -/
def sha1PadMessage (context : SHA1Context) : SHA1Context :=
  let c :=
    if context.messageBlockIndex > 55 then
      (sha1ProcessMessageBlock ((context.push 0x80).zeroTo 64)).zeroTo 56
    else (context.push 0x80).zeroTo 56
  let lengthByte (w : UInt32) (shift : UInt32) : UInt8 := (w >>> shift).toUInt8
  let block := c.messageBlock
    |>.setIfInBounds 56 (lengthByte c.lengthHigh 24)
    |>.setIfInBounds 57 (lengthByte c.lengthHigh 16)
    |>.setIfInBounds 58 (lengthByte c.lengthHigh 8)
    |>.setIfInBounds 59 (lengthByte c.lengthHigh 0)
    |>.setIfInBounds 60 (lengthByte c.lengthLow 24)
    |>.setIfInBounds 61 (lengthByte c.lengthLow 16)
    |>.setIfInBounds 62 (lengthByte c.lengthLow 8)
    |>.setIfInBounds 63 (lengthByte c.lengthLow 0)
  sha1ProcessMessageBlock { c with messageBlock := block }

/-- `SHA1Result`: the returned flag and the context. -/
def sha1Result (context : SHA1Context) : CInt × SHA1Context :=
  if context.corrupted ≠ 0 then (0, context)
  else if context.computed ≠ 0 then (1, context)
  else (1, { sha1PadMessage context with computed := 1 })

/-- The global `sha` before its first use. -/
def SHA1Context.zero : SHA1Context :=
  ⟨Vector.replicate _ 0, 0, 0, Vector.replicate _ 0, 0, 0, 0⟩

/-- `sha1_hash`: the returned code and the context left in `sha`. -/
def sha1Hash (sha : SHA1Context) (source : List UInt8) : CInt × SHA1Context :=
  let (ok, c) := sha1Result (sha1Input (sha1Reset sha) source)
  (if ok = 0 then -1 else 0, c)

/-- `convert_hash_to_number` -/
def convertHashToNumber (sha : SHA1Context) : UInt64 :=
  (sha.messageDigest[0].toUInt64 <<< 32) + sha.messageDigest[1].toUInt64

/-- `hash_file` of a file that could be opened and has these contents, or of one that could not
be opened. -/
def hashFile (contents : Option (List UInt8)) : UInt64 :=
  match contents with
  | none => 1
  | some bytes => convertHashToNumber (sha1Hash .zero (bytes.take maxFileLength)).2

/-- `hash_string` of the string that starts where these bytes start. -/
def hashString (memory : List UInt8) : UInt64 :=
  convertHashToNumber (sha1Hash .zero (memory.takeWhile (· != 0))).2

end KlteCommon.Fingerprint
