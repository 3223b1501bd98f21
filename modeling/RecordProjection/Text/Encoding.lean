/-!
# Encodings of texts

The text that a sequence of octets stands for. The encoding, one of UTF-8, UTF-16 and UTF-32 in
either order of octets, is told by the byte-order mark or else by where the noughts stand among
the first four octets.
-/
namespace RecordProjection.Text

/-- How the octets of a text are to be read. -/
inductive Encoding
  | utf8
  | utf16 (bigEndian : Bool)
  | utf32 (bigEndian : Bool)
  deriving DecidableEq

/-- The encoding of a sequence of octets, and the octets behind its byte-order mark. -/
def detect (bytes : List UInt8) : Encoding × List UInt8 :=
  match bytes with
  | 0x00 :: 0x00 :: 0xFE :: 0xFF :: r => (.utf32 true, r)
  | 0xFF :: 0xFE :: 0x00 :: 0x00 :: r => (.utf32 false, r)
  | 0xFE :: 0xFF :: r => (.utf16 true, r)
  | 0xFF :: 0xFE :: r => (.utf16 false, r)
  | 0xEF :: 0xBB :: 0xBF :: r => (.utf8, r)
  | a :: b :: c :: d :: _ =>
    if a = 0 then (if b = 0 then .utf32 true else .utf16 true, bytes)
    else if b = 0 then (if c = 0 && d = 0 then .utf32 false else .utf16 false, bytes)
    else (.utf8, bytes)
  | [a, b] =>
    if a = 0 then (.utf16 true, bytes) else if b = 0 then (.utf16 false, bytes) else (.utf8, bytes)
  | _ => (.utf8, bytes)

/-- The character of a number, if there is one. -/
def char? (n : Nat) : Option Char :=
  if h : n.isValidChar then some (Char.ofNatAux n h) else none

/-- The first half of a surrogate pair. -/
def isHighSurrogate (n : Nat) : Bool := 0xD800 ≤ n && n < 0xDC00

/-- The second half of a surrogate pair. -/
def isLowSurrogate (n : Nat) : Bool := 0xDC00 ≤ n && n < 0xE000

/-- The character of a surrogate pair. -/
def pairChar? (high low : Nat) : Option Char :=
  char? (0x10000 + (high - 0xD800) * 0x400 + (low - 0xDC00))

/-- The units of two octets, if their number is even. -/
def units16? (bigEndian : Bool) : List UInt8 → Option (List Nat)
  | [] => some []
  | a :: b :: r => do
    let unit := if bigEndian then a.toNat * 0x100 + b.toNat else b.toNat * 0x100 + a.toNat
    some (unit :: (← units16? bigEndian r))
  | [_] => none

/-- The text of units of sixteen bits. A half of a pair on its own is no text. -/
def ofUnits16? : List Nat → Option (List Char)
  | [] => some []
  | [n] => (char? n).map ([·])
  | n :: m :: r =>
    if isHighSurrogate n then
      if isLowSurrogate m then do some ((← pairChar? n m) :: (← ofUnits16? r)) else none
    else do some ((← char? n) :: (← ofUnits16? (m :: r)))

/-- The text of units of four octets. -/
def ofOctets32? (bigEndian : Bool) : List UInt8 → Option (List Char)
  | [] => some []
  | a :: b :: c :: d :: r => do
    let number := fun (w x y z : UInt8) =>
      ((w.toNat * 0x100 + x.toNat) * 0x100 + y.toNat) * 0x100 + z.toNat
    some ((← char? (if bigEndian then number a b c d else number d c b a))
      :: (← ofOctets32? bigEndian r))
  | _ => none

/-- The text that a sequence of octets stands for. -/
def decode? (bytes : List UInt8) : Option (List Char) :=
  match detect bytes with
  | (.utf8, r) => (String.fromUTF8? ⟨r.toArray⟩).map String.toList
  | (.utf16 bigEndian, r) => (units16? bigEndian r).bind ofUnits16?
  | (.utf32 bigEndian, r) => ofOctets32? bigEndian r

end RecordProjection.Text
