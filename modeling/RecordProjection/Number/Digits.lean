import RecordProjection.Text.DecimalDigit

/-!
# Digits of numbers

Natural numbers and integers as decimal text, with as many digits as they need or with a fixed
number of them, and the number that a run of digits stands for.
-/
namespace RecordProjection.Number

open Text

/-- Ten to the power of a number. -/
def tenPow (n : Nat) : Nat := Nat.pow 10 n

/-- Two to the power of a number. -/
def twoPow (n : Nat) : Nat := Nat.pow 2 n

/-- The decimal digits of a number, without leading noughts. -/
def decimal (n : Nat) : List Char := Nat.toDigits 10 n

/-- The `width` lowest decimal digits of a number. -/
def fixedDecimal : (width : Nat) → Nat → List Char
  | 0, _ => []
  | width + 1, n => fixedDecimal width (n / 10) ++ [digitChar (n % 10)]

/-- An integer in decimal, with a minus sign below nought. -/
def integerText (n : Int) : List Char :=
  if n < 0 then '-' :: decimal n.natAbs else decimal n.natAbs

/-- The number that a run of decimal digits stands for. -/
def ofDigits (cs : List Char) : Nat := cs.foldl (fun n c => 10 * n + digitValue c) 0

/-- The number given by exactly `count` digits at the front of a text, and the text behind. -/
def readDigits : (count : Nat) → (sum : Nat) → List Char → Option (Nat × List Char)
  | 0, sum, cs => some (sum, cs)
  | _ + 1, _, [] => none
  | count + 1, sum, c :: cs =>
    if isDigit c then readDigits count (10 * sum + digitValue c) cs else none

/-- A sign at the front of a text, true for minus, and the text behind. -/
def readSign : List Char → Bool × List Char
  | [] => (false, [])
  | c :: cs => if c = '-' then (true, cs) else if c = '+' then (false, cs) else (false, c :: cs)

theorem length_readSign_le (cs : List Char) : (readSign cs).2.length ≤ cs.length := by
  unfold readSign
  repeat' split
  all_goals simp

@[simp] theorem length_fixedDecimal (width n : Nat) : (fixedDecimal width n).length = width := by
  induction width generalizing n with
  | zero => rfl
  | succ width ih => simp [fixedDecimal, ih]

end RecordProjection.Number
