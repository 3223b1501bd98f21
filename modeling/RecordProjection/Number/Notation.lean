import RecordProjection.Number.Digits

/-!
# Decimal notation

Where the point goes in a run of digits: written out in place, with noughts as far as the point
needs them, or behind the first digit with an exponent.
-/
namespace RecordProjection.Number

/-- Digits with the decimal point behind the first `point` of them, filled up with noughts on
either side. A point at or behind the last digit is not written. -/
def positional (digits : List Char) (point : Int) : List Char :=
  if point ≤ 0 then ['0', '.'] ++ List.replicate (-point).toNat '0' ++ digits
  else if digits.length ≤ point.toNat then
    digits ++ List.replicate (point.toNat - digits.length) '0'
  else digits.take point.toNat ++ ['.'] ++ digits.drop point.toNat

/-- Digits with the point behind the first one, if more follow. -/
def leading (digits : List Char) : List Char :=
  match digits with
  | d :: e :: ds => d :: '.' :: e :: ds
  | ds => ds

/-- A signed exponent of at least `width` digits. -/
def exponentText (width : Nat) (e : Int) : List Char :=
  let digits := decimal e.natAbs
  (if e < 0 then '-' else '+') :: List.replicate (width - digits.length) '0' ++ digits

end RecordProjection.Number
