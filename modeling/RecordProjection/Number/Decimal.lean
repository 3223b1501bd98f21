import RecordProjection.Number.Binary64
import RecordProjection.Number.Notation
import RecordProjection.Text.Blank

/-!
# Decimal numbers

Decimals of any length, as a coefficient and a power of ten, with the two infinities and the
undefined values. The text of a decimal keeps the noughts at its end, so that `1.50` and `1.5`
are told apart.
-/
namespace RecordProjection

/-- A decimal of any length. -/
inductive Decimal
  | finite (negative : Bool) (coefficient : Nat) (exponent : Int)
  | infinite (negative : Bool)
  | undefined (negative signalling : Bool) (payload : Option Nat)
  deriving DecidableEq

namespace Decimal

open Number

/-- Neither infinite nor undefined. -/
def isFinite : Decimal → Bool
  | finite .. => true
  | _ => false

/-- The integer that a decimal is, if it is one. A coefficient with fewer digits than there are
places behind the point cannot be a multiple of a power of ten. -/
def toInt? : Decimal → Option Int
  | finite negative coefficient exponent =>
    let places := exponent.natAbs
    let magnitude? : Option Nat :=
      if coefficient = 0 then some 0
      else if 0 ≤ exponent then some (coefficient * tenPow places)
      else if (decimal coefficient).length ≤ places then none
      else if coefficient % tenPow places = 0 then some (coefficient / tenPow places)
      else none
    magnitude?.map fun n => if negative then -n else n
  | _ => none

/-- The floating-point number next to a decimal. -/
def toBinary64 : Decimal → Binary64
  | finite negative coefficient exponent => .ofDecimal negative coefficient exponent
  | infinite negative => .infinite negative
  | undefined .. => .nan

/-- A coefficient and exponent as text: written out in place when no nought has to be added at
the end and the first digit stands for at least `10 ^ (-6)`. -/
def magnitudeText (coefficient : Nat) (exponent : Int) : List Char :=
  let digits := decimal coefficient
  let point : Int := digits.length + exponent
  if exponent ≤ 0 && -6 < point then positional digits point
  else leading digits ++ 'E' :: exponentText 1 (point - 1)

/-- The text of a decimal. -/
def text : Decimal → List Char
  | finite negative coefficient exponent =>
    (if negative then ['-'] else []) ++ magnitudeText coefficient exponent
  | infinite negative => (if negative then ['-'] else []) ++ "Infinity".toList
  | undefined negative signalling payload =>
    (if negative then ['-'] else []) ++ (if signalling then ['s'] else []) ++ "NaN".toList
      ++ (payload.map decimal).getD []

/-- An exponent: a mark, an optional sign and at least one digit, up to the end. An empty text is
the exponent nought. -/
def readExponent? : List Char → Option Int
  | [] => some 0
  | mark :: cs =>
    let (negative, digits) := readSign cs
    if (mark = 'e' || mark = 'E') && digits ≠ [] && digits.all Text.isDigit then
      let n : Int := ofDigits digits
      some (if negative then -n else n)
    else none

/-- A magnitude: digits with at most one point, and an optional exponent. -/
def readMagnitude? (cs : List Char) : Option (Nat × Int) :=
  let whole := cs.takeWhile Text.isDigit
  let rest := cs.dropWhile Text.isDigit
  let (fraction, rest) := match rest with
    | '.' :: r => (r.takeWhile Text.isDigit, r.dropWhile Text.isDigit)
    | r => ([], r)
  if whole = [] && fraction = [] then none
  else (readExponent? rest).map fun e => (ofDigits (whole ++ fraction), e - fraction.length)

/-- The decimal that a text stands for. Blanks around it and underscores in it are passed over, and
digits of any script count. -/
def ofText? (cs : List Char) : Option Decimal :=
  let cs := ((Text.trimChars cs).filter (· != '_')).map Text.toDigit
  let (negative, rest) := readSign cs
  let word := rest.map Char.toLower
  if word = "inf".toList || word = "infinity".toList then some (infinite negative)
  else match readMagnitude? rest with
    | some (coefficient, exponent) => some (finite negative coefficient exponent)
    | none =>
      let (signalling, word) := match word with
        | 's' :: w => (true, w)
        | w => (false, w)
      match word with
      | 'n' :: 'a' :: 'n' :: digits =>
        if digits.all Text.isDigit then
          some (undefined negative signalling
            (if ofDigits digits = 0 then none else some (ofDigits digits)))
        else none
      | _ => none

end Decimal
end RecordProjection
