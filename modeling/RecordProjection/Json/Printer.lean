import RecordProjection.Json.Reader
import RecordProjection.Number.Shortest
import RecordProjection.Text.Quoted

/-!
# Values as text

Two written forms of a value. The canonical form has the members of every mapping sorted by key
and no blanks, so it depends on the value and not on the order of its members. The indented form
keeps the order and puts each item on a line of its own.
-/
namespace RecordProjection

namespace Json

open Text

/-- A character between quotation marks. Only the marks, the backslash and the control characters
below the space are escaped. -/
def escapedChar (c : Char) : List Char :=
  if c = '"' then ['\\', '"']
  else if c = '\\' then ['\\', '\\']
  else if c = '\n' then ['\\', 'n']
  else if c = '\r' then ['\\', 'r']
  else if c = '\t' then ['\\', 't']
  else if c = '\x08' then ['\\', 'b']
  else if c = '\x0c' then ['\\', 'f']
  else if c.toNat < 0x20 then '\\' :: 'u' :: hexDigits 4 c.toNat
  else [c]

/-- A text between quotation marks. -/
def quotedChars (cs : List Char) : List Char := '"' :: cs.flatMap escapedChar ++ ['"']

/-- A number of 64 bits. -/
def floatText : Binary64 → List Char
  | .nan => "NaN".toList
  | .infinite negative => (if negative then ['-'] else []) ++ "Infinity".toList
  | x => x.text

/-- A value that is neither a list nor a mapping. Dates, moments and decimals are quoted. -/
def scalarText : Value → List Char
  | .null => "null".toList
  | .bool true => "true".toList
  | .bool false => "false".toList
  | .int n => Number.integerText n
  | .float x => floatText x
  | .decimal d => quotedChars d.text
  | .text s => quotedChars s.toList
  | .date d => quotedChars d.text
  | .moment m => quotedChars m.text
  | .list _ | .mapping _ => []

/-- JSON has a form of its own for a value that is neither a list nor a mapping. The limit on the
digits of an integer holds for writing as it does for reading. -/
def isWritable : Value → Bool
  | .decimal _ | .date _ | .moment _ => false
  | .int n => (Number.decimal n.natAbs).length ≤ maxDigits
  | _ => true

/-- The indented form has a text for a value that is neither a list nor a mapping. Dates and moments
are written as texts there. -/
def isPrinted : Value → Bool
  | .date _ | .moment _ => true
  | v => isWritable v

/-- Members sorted by key. -/
def sortMembers {α : Type} (members : List (String × α)) : List (String × α) :=
  members.mergeSort fun a b => decide (a.1 ≤ b.1)

end Json

namespace Value

open Json

mutual

/-- The canonical form, character by character. -/
def canonicalChars : Value → List Char
  | list items => '[' :: List.intercalate [','] (canonicalItems items) ++ [']']
  | mapping members =>
    '{' :: List.intercalate [','] ((sortMembers (canonicalMembers members)).map fun m =>
      quotedChars m.1.toList ++ ':' :: m.2) ++ ['}']
  | v => scalarText v

/-- The canonical forms of the items of a list. -/
def canonicalItems : List Value → List (List Char)
  | [] => []
  | v :: vs => canonicalChars v :: canonicalItems vs

/-- The members of a mapping, each with the canonical form of its value. -/
def canonicalMembers : List (String × Value) → List (String × List Char)
  | [] => []
  | (key, v) :: ms => (key, canonicalChars v) :: canonicalMembers ms

end

/-- The canonical form of a value. -/
def canonical (v : Value) : String := String.ofList v.canonicalChars

mutual

/-- The first part of a value, in the order of its canonical form, that JSON has no form of its own
for. -/
def unwritable? : Value → Option Value
  | list items => unwritableItem? items
  | mapping members => (sortMembers (unwritableMembers members)).findSome? Prod.snd
  | v => if isWritable v then none else some v

/-- The first such part of the items of a list. -/
def unwritableItem? : List Value → Option Value
  | [] => none
  | v :: vs => (unwritable? v).or (unwritableItem? vs)

/-- The members of a mapping, each with the first such part of its value. -/
def unwritableMembers : List (String × Value) → List (String × Option Value)
  | [] => []
  | (key, v) :: ms => (key, unwritable? v) :: unwritableMembers ms

end

/-- The canonical form of a value that JSON has a form of its own for in all its parts; of any other
value the first part that it has none for. -/
def canonicalJson (v : Value) : Except Value String :=
  match v.unwritable? with
  | some part => .error part
  | none => .ok v.canonical

/-- What is said of a value that JSON has no form of its own for. -/
def unwritableText : Value → String
  | int _ => tooLongText ""
  | v => "Object of type " ++ v.kindName ++ " is not JSON serializable"

/-- A line break and the indentation of a level. -/
def newLine (level : Nat) : List Char := '\n' :: List.replicate (2 * level) ' '

/-- Items on lines of their own, between brackets; nothing stands between the brackets of none. -/
def bracketed (first last : Char) (level : Nat) (items : List (List Char)) : List Char :=
  if items.isEmpty then [first, last]
  else first :: newLine (level + 1)
    ++ List.intercalate (',' :: newLine (level + 1)) items ++ newLine level ++ [last]

mutual

/-- The indented form at a level, character by character. -/
def indentedChars (level : Nat) : Value → List Char
  | list items => bracketed '[' ']' level (indentedItems (level + 1) items)
  | mapping members => bracketed '{' '}' level (indentedMembers (level + 1) members)
  | v => scalarText v

/-- The indented forms of the items of a list. -/
def indentedItems (level : Nat) : List Value → List (List Char)
  | [] => []
  | v :: vs => indentedChars level v :: indentedItems level vs

/-- The indented forms of the members of a mapping, each with its key. -/
def indentedMembers (level : Nat) : List (String × Value) → List (List Char)
  | [] => []
  | (key, v) :: ms =>
    (quotedChars key.toList ++ ':' :: ' ' :: indentedChars level v) :: indentedMembers level ms

end

/-- The indented form of a value. -/
def indented (v : Value) : String := String.ofList (v.indentedChars 0)

mutual

/-- The first part of a value, in its own order, that the indented form is refused for. -/
def unprintable? : Value → Option Value
  | list items => unprintableItem? items
  | mapping members => unprintableMember? members
  | v => if isPrinted v then none else some v

/-- The first such part of the items of a list. -/
def unprintableItem? : List Value → Option Value
  | [] => none
  | v :: vs => (unprintable? v).or (unprintableItem? vs)

/-- The first such part of the values of a mapping. -/
def unprintableMember? : List (String × Value) → Option Value
  | [] => none
  | (_, v) :: ms => (unprintable? v).or (unprintableMember? ms)

end

/-- The indented form of a value, or the first part that it is refused for. -/
def indentedJson (v : Value) : Except Value String :=
  match v.unprintable? with
  | some part => .error part
  | none => .ok v.indented

end Value
end RecordProjection
