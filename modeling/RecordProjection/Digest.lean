/-!
# SHA-256 digests

The digest of a sequence of octets: padding to whole blocks, the message schedule, and sixty-four
rounds for each block.
-/
namespace RecordProjection.Digest

/-- The state between two blocks, and the working variables of a round. -/
structure Block where
  a : UInt32
  b : UInt32
  c : UInt32
  d : UInt32
  e : UInt32
  f : UInt32
  g : UInt32
  h : UInt32

/-- The constants of the rounds. -/
def roundConstants : List UInt32 :=
  [0x428A2F98, 0x71374491, 0xB5C0FBCF, 0xE9B5DBA5, 0x3956C25B, 0x59F111F1, 0x923F82A4, 0xAB1C5ED5,
   0xD807AA98, 0x12835B01, 0x243185BE, 0x550C7DC3, 0x72BE5D74, 0x80DEB1FE, 0x9BDC06A7, 0xC19BF174,
   0xE49B69C1, 0xEFBE4786, 0x0FC19DC6, 0x240CA1CC, 0x2DE92C6F, 0x4A7484AA, 0x5CB0A9DC, 0x76F988DA,
   0x983E5152, 0xA831C66D, 0xB00327C8, 0xBF597FC7, 0xC6E00BF3, 0xD5A79147, 0x06CA6351, 0x14292967,
   0x27B70A85, 0x2E1B2138, 0x4D2C6DFC, 0x53380D13, 0x650A7354, 0x766A0ABB, 0x81C2C92E, 0x92722C85,
   0xA2BFE8A1, 0xA81A664B, 0xC24B8B70, 0xC76C51A3, 0xD192E819, 0xD6990624, 0xF40E3585, 0x106AA070,
   0x19A4C116, 0x1E376C08, 0x2748774C, 0x34B0BCB5, 0x391C0CB3, 0x4ED8AA4A, 0x5B9CCA4F, 0x682E6FF3,
   0x748F82EE, 0x78A5636F, 0x84C87814, 0x8CC70208, 0x90BEFFFA, 0xA4506CEB, 0xBEF9A3F7, 0xC67178F2]

/-- The state before the first block. -/
def start : Block :=
  ⟨0x6A09E667, 0xBB67AE85, 0x3C6EF372, 0xA54FF53A,
    0x510E527F, 0x9B05688C, 0x1F83D9AB, 0x5BE0CD19⟩

/-- A word turned to the right. -/
def rotate (x : UInt32) (n : UInt32) : UInt32 := (x >>> n) ||| (x <<< (32 - n))

/-- The word of four octets, the first one highest. -/
def word (a b c d : UInt8) : UInt32 :=
  (a.toUInt32 <<< 24) ||| (b.toUInt32 <<< 16) ||| (c.toUInt32 <<< 8) ||| d.toUInt32

/-- The words of a sequence of octets. -/
def words : List UInt8 → List UInt32
  | a :: b :: c :: d :: rest => word a b c d :: words rest
  | _ => []

/-- The octets of a number, the highest first. -/
def bigEndian : (width : Nat) → Nat → List UInt8
  | 0, _ => []
  | width + 1, n => bigEndian width (n / 256) ++ [UInt8.ofNat n]

/-- A message with its padding: one bit, noughts up to the last eight octets of a block, and the
length in bits. -/
def padded (message : List UInt8) : List UInt8 :=
  message ++ 0x80 :: List.replicate ((119 - message.length % 64) % 64) 0
    ++ bigEndian 8 (8 * message.length)

/-- The next word of a schedule whose words so far are given with the latest first. -/
def nextWord (w : List UInt32) : UInt32 :=
  let x := w.getD 14 0
  let y := w.getD 1 0
  let s₀ := rotate x 7 ^^^ rotate x 18 ^^^ (x >>> 3)
  let s₁ := rotate y 17 ^^^ rotate y 19 ^^^ (y >>> 10)
  w.getD 15 0 + s₀ + w.getD 6 0 + s₁

/-- The schedule of a block of sixteen words. -/
def schedule (block : List UInt32) : List UInt32 :=
  (Nat.repeat (fun w => nextWord w :: w) 48 block.reverse).reverse

/-- One round. -/
def round (v : Block) (k w : UInt32) : Block :=
  let s₁ := rotate v.e 6 ^^^ rotate v.e 11 ^^^ rotate v.e 25
  let choice := (v.e &&& v.f) ^^^ (~~~v.e &&& v.g)
  let t₁ := v.h + s₁ + choice + k + w
  let s₀ := rotate v.a 2 ^^^ rotate v.a 13 ^^^ rotate v.a 22
  let majority := (v.a &&& v.b) ^^^ (v.a &&& v.c) ^^^ (v.b &&& v.c)
  ⟨t₁ + (s₀ + majority), v.a, v.b, v.c, v.d + t₁, v.e, v.f, v.g⟩

/-- The state after a block of sixteen words. -/
def compress (v : Block) (block : List UInt32) : Block :=
  let u := (roundConstants.zip (schedule block)).foldl (fun u kw => round u kw.1 kw.2) v
  ⟨v.a + u.a, v.b + u.b, v.c + u.c, v.d + u.d, v.e + u.e, v.f + u.f, v.g + u.g, v.h + u.h⟩

/-- The state after all blocks of a sequence of words. -/
def compressAll (v : Block) (ws : List UInt32) : Block :=
  if 16 ≤ ws.length then compressAll (compress v (ws.take 16)) (ws.drop 16) else v
termination_by ws.length
decreasing_by simp only [List.length_drop]; omega

/-- The digest of a message, as sixty-four hexadecimal digits. -/
def sha256 (message : List UInt8) : List Char :=
  let v := compressAll start (words (padded message))
  [v.a, v.b, v.c, v.d, v.e, v.f, v.g, v.h].flatMap fun x =>
    (bigEndian 4 x.toNat).flatMap fun o =>
      [Nat.digitChar (o.toNat / 16), Nat.digitChar (o.toNat % 16)]

end RecordProjection.Digest
