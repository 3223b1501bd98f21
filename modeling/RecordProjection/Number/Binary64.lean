import RecordProjection.Number.Digits

/-!
# Floating-point numbers of 64 bits

The numbers of the format in exact arithmetic. The non-negative finite ones are counted from
nought upwards; a number is given by its sign and its rank in that count. The number of rank `r`
is `significand r * 2 ^ scale r` units of `2 ^ (-1074)`, and reading a decimal gives the nearest
number, of two equally near ones that of even rank.
-/
namespace RecordProjection

namespace Binary64

open Number

/-- The number of ranks that follow each other in steps of one size. -/
def binade : Nat := twoPow 52

/-- The number of ranks of finite numbers. -/
def rankCount : Nat := 2047 * binade

/-- The number of units in one. -/
def unitsInOne : Nat := twoPow 1074

end Binary64

/-- A number of the format: a finite one by the rank of its magnitude, or one of the rest. -/
inductive Binary64
  | nan
  | infinite (negative : Bool)
  | finite (negative : Bool) (rank : Nat) (rank_lt : rank < Binary64.rankCount)
  deriving DecidableEq

namespace Binary64

open Number

/-- The whole number of units in the spacing of a rank. -/
def significand (rank : Nat) : Nat :=
  if rank < binade then rank else binade + rank % binade

/-- The binary logarithm of the spacing at a rank, in units. -/
def scale (rank : Nat) : Nat := rank / binade - 1

/-- The magnitude of a rank, in units. -/
def units (rank : Nat) : Nat := significand rank * twoPow (scale rank)

/-- The whole number nearest to a quotient; of two equally near ones the even one. -/
def roundEven (num den : Nat) : Nat :=
  let q := num / den
  let r := num % den
  if 2 * r < den then q else if den < 2 * r then q + 1 else q + q % 2

/-- The rank of the number nearest to `num / den`, counted on without end. -/
def nearestRank (num den : Nat) : Nat :=
  let n := num * unitsInOne
  let s := (n / den).log2 - 52
  s * binade + roundEven n (den * twoPow s)

/-- The rank nearest to `coefficient * 10 ^ exponent`. Beyond four hundred digits on either side of
the point nothing but the largest rank and nought is left to choose. -/
def rankOfDecimal (coefficient : Nat) (exponent : Int) : Nat :=
  let size := (decimal coefficient).length + exponent
  if coefficient = 0 || size < -400 then 0
  else if 400 < size then rankCount
  else if exponent < 0 then nearestRank coefficient (tenPow exponent.natAbs)
  else nearestRank (coefficient * tenPow exponent.natAbs) 1

/-- The number of a sign and a rank; past the last finite rank the infinite one. -/
def ofRank (negative : Bool) (rank : Nat) : Binary64 :=
  if h : rank < rankCount then finite negative rank h else infinite negative

/-- The number nearest to a signed decimal. -/
def ofDecimal (negative : Bool) (coefficient : Nat) (exponent : Int) : Binary64 :=
  ofRank negative (rankOfDecimal coefficient exponent)

/-- The integer that a finite number without a fraction is equal to. -/
def toInt? : Binary64 → Option Int
  | finite negative rank _ =>
    if units rank % unitsInOne = 0 then
      let n : Int := (units rank / unitsInOne : Nat)
      some (if negative then -n else n)
    else none
  | _ => none

/-- Neither infinite nor undefined. -/
def isFinite : Binary64 → Bool
  | finite .. => true
  | _ => false

end Binary64
end RecordProjection
