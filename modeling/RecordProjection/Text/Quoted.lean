import RecordProjection.Text.Printable

/-!
# Quoted text

How a text is shown inside a message: between quote marks, with everything a reader could not
see on the page escaped. The mark is an apostrophe, unless the text holds an apostrophe and no
double quote.
-/
namespace RecordProjection.Text

/-- The `width` lowest hexadecimal digits of a number, in lower case. -/
def hexDigits : (width : Nat) → Nat → List Char
  | 0, _ => []
  | width + 1, n => hexDigits width (n / 16) ++ [Nat.digitChar (n % 16)]

@[simp] theorem length_hexDigits (width n : Nat) : (hexDigits width n).length = width := by
  induction width generalizing n with
  | zero => rfl
  | succ width ih => simp [hexDigits, ih]

/-- The mark that encloses a text. -/
def quoteMark (cs : List Char) : Char :=
  if cs.contains '\'' && !cs.contains '"' then '"' else '\''

/-- One character between the marks. A character without a visible form is given by its number,
in two, four or eight digits. -/
def quotedChar (mark c : Char) : List Char :=
  if c = mark || c = '\\' then ['\\', c]
  else if c = '\n' then ['\\', 'n']
  else if c = '\r' then ['\\', 'r']
  else if c = '\t' then ['\\', 't']
  else if isPrintable c then [c]
  else if c.toNat < 0x100 then '\\' :: 'x' :: hexDigits 2 c.toNat
  else if c.toNat < 0x10000 then '\\' :: 'u' :: hexDigits 4 c.toNat
  else '\\' :: 'U' :: hexDigits 8 c.toNat

/-- A text as a message shows it. -/
def quoted (s : String) : String :=
  let mark := quoteMark s.toList
  String.ofList ([mark] ++ s.toList.flatMap (quotedChar mark) ++ [mark])

/-- A single character as a message shows it. -/
def quotedSingle (c : Char) : String := quoted (String.ofList [c])

end RecordProjection.Text
