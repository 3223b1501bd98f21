import RecordProjection.Number.Digits
import RecordProjection.Text.Blank

/-!
# Integers in tolerant spelling

A plain integer is written in one way only: an optional minus sign and digits that start with a
nought only if it is the only one. Tolerant reading takes a plain integer as it stands. Any other
text is tidied first: white space around it, leading noughts, a fraction of noughts and single
underscores go, and what is left has to be plain.
-/
namespace RecordProjection.Number

open Text

/-! ## Plain integers -/

/-- The most digits that a plain integer has when it is read. -/
def maxPlainDigits : Nat := 4300

/-- A minus sign at the front of a text, and the text behind it. -/
def readMinus : List Char → Bool × List Char
  | [] => (false, [])
  | c :: cs => if c = '-' then (true, cs) else (false, c :: cs)

/-- Digits that start with a nought only if it is the only one. -/
def isPlainMagnitude : List Char → Bool
  | [] => false
  | c :: cs => isDigit c && (c ≠ '0' || cs.isEmpty) && cs.all isDigit

/-- The integer that a plain text stands for. -/
def readPlain? (cs : List Char) : Option Int :=
  let (negative, digits) := readMinus cs
  if isPlainMagnitude digits && digits.length ≤ maxPlainDigits then
    let n : Int := ofDigits digits
    some (if negative then -n else n)
  else none

/-- A text begins like a plain integer that is too long to be read, whatever follows. -/
def beginsOverlong (cs : List Char) : Bool :=
  let digits := (readMinus cs).2.takeWhile isDigit
  isPlainMagnitude digits && maxPlainDigits < digits.length

/-! ## Tidying -/

/-- White space around a number: every blank but the four separators U+001C to U+001F. -/
def isMargin (c : Char) : Bool := isBlank c && !(0x1C ≤ c.toNat && c.toNat ≤ 0x1F)

/-- A text without white space around it. -/
def dropMargins (cs : List Char) : List Char :=
  ((cs.dropWhile isMargin).reverse.dropWhile isMargin).reverse

/-- What follows a leading nought, without further noughts and underscores; `last` is the character
before the text, which stays if no other digit follows it. -/
def dropNoughtsAfter? (last : Char) : List Char → Option (List Char)
  | [] => some [last]
  | c :: cs =>
    if c = '0' || c = '_' then dropNoughtsAfter? c cs
    else if c = '.' then some (last :: c :: cs)
    else if c = '-' || isDigit c then some (c :: cs)
    else none

/-- A text that starts with a digit, without its leading noughts. -/
def dropNoughts? : List Char → Option (List Char)
  | [] => none
  | c :: cs =>
    if c = '0' then dropNoughtsAfter? c cs else if isDigit c then some (c :: cs) else none

/-- A text without a fraction that is nothing but noughts. -/
def dropNoughtFraction (cs : List Char) : List Char :=
  match cs.dropWhile (· != '.') with
  | [] => cs
  | _ :: fraction =>
    if !fraction.isEmpty && fraction.all (· == '0') then cs.takeWhile (· != '.') else cs

/-- No two underscores follow each other and none stands at the end; `after` tells that one stands
right before the text. -/
def isGrouped (after : Bool) : List Char → Bool
  | [] => !after
  | c :: cs => if c = '_' then !after && isGrouped true cs else isGrouped false cs

/-- The integer that a text stands for in tolerant spelling. -/
def readTolerant? (cs : List Char) : Option Int :=
  match readPlain? cs with
  | some n => some n
  | none =>
    let (negative, rest) := readSign (dropMargins cs)
    match (dropNoughts? rest).map dropNoughtFraction with
    | none => none
    | some digits =>
      if isGrouped true digits then
        readPlain? ((if negative then ['-'] else []) ++ digits.filter (· != '_'))
      else none

end RecordProjection.Number
