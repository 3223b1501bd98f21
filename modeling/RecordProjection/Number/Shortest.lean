import RecordProjection.Number.Binary64
import RecordProjection.Number.Notation

/-!
# Shortest decimals

The text of a floating-point number has the fewest digits that read back as that number, and
among those of this many digits the one nearest to it. Candidates of a given number of digits
are the two neighbours of the number on that decimal grid.
-/
namespace RecordProjection.Binary64

/-- The exponent `e` for which `10 ^ e ≤ num / den < 10 ^ (e + 1)`, for a positive quotient. -/
def decimalExponent (num den : Nat) : Int :=
  if den ≤ num then (Number.decimal (num / den)).length - 1
  else
    let bound := (den + num - 1) / num - 1
    if bound = 0 then 0 else -(Number.decimal bound).length

/-- The number of whole steps of `10 ^ exponent` in `num / den`. -/
def stepsBelow (num den : Nat) (exponent : Int) : Nat :=
  if exponent < 0 then num * Number.tenPow exponent.natAbs / den
  else num / (den * Number.tenPow exponent.natAbs)

/-- Twice `num / den` against an odd number of steps of `10 ^ exponent`. -/
def compareHalf (num den steps : Nat) (exponent : Int) : Ordering :=
  if exponent < 0 then compare (2 * num * Number.tenPow exponent.natAbs) (steps * den)
  else compare (2 * num) (steps * den * Number.tenPow exponent.natAbs)

/-- The better of the two neighbours of a rank on one decimal grid, if either reads back. -/
def onGrid? (rank : Nat) (exponent : Int) : Option Nat :=
  let num := units rank
  let den := unitsInOne
  let below := stepsBelow num den exponent
  let above := below + 1
  match rankOfDecimal below exponent == rank, rankOfDecimal above exponent == rank with
  | true, true =>
    match compareHalf num den (below + above) exponent with
    | .lt => some below
    | .gt => some above
    | .eq => some (if below % 2 = 0 then below else above)
  | true, false => some below
  | false, true => some above
  | false, false => none

/-- The fewest digits that read back as a positive rank, with the exponent of the last one. -/
def shortest (rank : Nat) : Nat × Int :=
  let top := decimalExponent (units rank) unitsInOne
  let found := (List.range 17).findSome? fun (more : Nat) =>
    (onGrid? rank (top - more)).map fun steps => (steps, top - more)
  found.getD (stepsBelow (units rank) unitsInOne (top - 17), top - 17)

/-- Digits without the noughts at their end. -/
def dropTrailingNoughts (digits : List Char) : List Char :=
  (digits.reverse.dropWhile (· == '0')).reverse

/-- The magnitude of a rank. It is written out in place when its first digit stands for at least
`10 ^ (-4)` and less than `10 ^ 16`, and then always with a fraction. -/
def magnitudeText (rank : Nat) : List Char :=
  if rank = 0 then ['0', '.', '0']
  else
    let (steps, exponent) := shortest rank
    let written := Number.decimal steps
    let digits := dropTrailingNoughts written
    let first : Int := written.length + exponent - 1
    if -4 ≤ first && first < 16 then
      let text := Number.positional digits (first + 1)
      if digits.length ≤ first + 1 then text ++ ['.', '0'] else text
    else Number.leading digits ++ 'e' :: Number.exponentText 2 first

/-- The text of a number, `nan` and `inf` for those without digits. -/
def text : Binary64 → List Char
  | nan => ['n', 'a', 'n']
  | infinite negative => (if negative then ['-'] else []) ++ ['i', 'n', 'f']
  | finite negative rank _ => (if negative then ['-'] else []) ++ magnitudeText rank

end RecordProjection.Binary64
