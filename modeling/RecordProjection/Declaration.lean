import RecordProjection.Number.Tolerant
import RecordProjection.Value

/-!
# Reading declarations

A declaration is a mapping with given members, each of which has to be a value of some kind.
Reading one is lenient where a value can only mean one thing, such as `"yes"` for a flag, and
reports every fault it finds: those of the declared members in their order, then the members that
have no place in the declaration.
-/
namespace RecordProjection

/-- A step on the way into a value. -/
inductive Step
  | member (key : String)
  | item (index : Nat)
  deriving DecidableEq

/-- What is wrong with a part of a declaration. -/
inductive FaultKind
  | missing
  | unknownMember
  | notText
  | notFlag
  | unreadableFlag
  | notInteger
  | unreadableInteger
  | oversizedInteger
  | fractionalInteger
  | notFinite
  | belowOne
  | notList
  | notMapping
  | refused (reason : String)
  deriving DecidableEq

namespace FaultKind

/-- The name of a kind of fault. -/
def code : FaultKind → String
  | missing => "missing"
  | unknownMember => "extra_forbidden"
  | notText => "string_type"
  | notFlag => "bool_type"
  | unreadableFlag => "bool_parsing"
  | notInteger => "int_type"
  | unreadableInteger => "int_parsing"
  | oversizedInteger => "int_parsing_size"
  | fractionalInteger => "int_from_float"
  | notFinite => "finite_number"
  | belowOne => "greater_than_equal"
  | notList => "tuple_type"
  | notMapping => "model_type"
  | refused _ => "value_error"

end FaultKind

/-- A fault and the way to it from the whole declaration. -/
structure Fault where
  path : List Step
  kind : FaultKind
  deriving DecidableEq

/-- A declaration as it was read, or all its faults. -/
abbrev Checked (α : Type) := Except (List Fault) α

namespace Checked

/-- A single fault, at the place that is being read. -/
def fault {α : Type} (kind : FaultKind) : Checked α := .error [⟨[], kind⟩]

/-- The same, seen from one step further out. -/
def under {α : Type} (step : Step) : Checked α → Checked α
  | .ok a => .ok a
  | .error faults => .error (faults.map fun f => { f with path := step :: f.path })

/-- Two parts together. The faults of the first come first. -/
def both {α β : Type} : Checked α → Checked β → Checked (α × β)
  | .ok a, .ok b => .ok (a, b)
  | .error fs, .ok _ => .error fs
  | .ok _, .error gs => .error gs
  | .error fs, .error gs => .error (fs ++ gs)

end Checked

namespace Declaration

open Text

/-! ## Kinds of members -/

/-- A member that has to be a text. -/
def text : Value → Checked String
  | .text s => .ok s
  | _ => .fault .notText

/-- A member that may be a text or nothing. -/
def optionalText : Value → Checked (Option String)
  | .null => .ok none
  | v => (text v).map some

/-- The words for yes. -/
def yesWords : List String := ["true", "t", "yes", "y", "on", "1"]

/-- The words for no. -/
def noWords : List String := ["false", "f", "no", "n", "off", "0"]

/-- The integers that a machine word of 64 bits can hold. -/
def fitsWord (n : Int) : Bool := -(Number.twoPow 63 : Int) ≤ n && n < Number.twoPow 63

/-- The whole floating-point numbers that are taken for integers: those that are less than
`2 ^ 63` from nought. -/
def isWordSized (n : Int) : Bool := n.natAbs < Number.twoPow 63

/-- The flag of an integer. -/
def integerFlag (n : Int) : Checked Bool :=
  if n = 0 then .ok false else if n = 1 then .ok true else .fault .unreadableFlag

/-- The flag of a floating-point number. -/
def floatFlag (x : Binary64) : Checked Bool :=
  match x.toInt? with
  | some n => if isWordSized n then integerFlag n else .fault .notFlag
  | none => .fault .notFlag

/-- A member that has to be a flag: a truth value, one of the numbers nought and one, or a word
for yes or no in small or capital letters. A decimal counts as the floating-point number next to
it. -/
def flag : Value → Checked Bool
  | .bool b => .ok b
  | .int n => if fitsWord n then integerFlag n else .fault .notFlag
  | .float x => floatFlag x
  | .decimal d => floatFlag d.toBinary64
  | .text s =>
    let word := s.map Char.toLower
    if yesWords.contains word then .ok true
    else if noWords.contains word then .ok false
    else .fault .unreadableFlag
  | _ => .fault .notFlag

/-- A member that has to be an integer: a whole number of any kind, a truth value, or a text that
stands for one. Floating-point numbers have to fit into a machine word. -/
def integer : Value → Checked Int
  | .int n => .ok n
  | .bool b => .ok (if b then 1 else 0)
  | .float x =>
    if !x.isFinite then .fault .notFinite
    else match x.toInt? with
      | some n => if isWordSized n then .ok n else .fault .oversizedInteger
      | none => .fault .fractionalInteger
  | .decimal d =>
    if !d.isFinite then .fault .notFinite
    else match d.toInt? with
      | some n => .ok n
      | none => .fault .fractionalInteger
  | .text s =>
    if Number.beginsOverlong s.toList then .fault .oversizedInteger
    else match Number.readTolerant? s.toList with
      | some n => .ok n
      | none => .fault .unreadableInteger
  | _ => .fault .notInteger

/-- A positive number. -/
abbrev Positive := { n : Nat // 1 ≤ n }

/-- A member that has to be a positive integer. -/
def positive (v : Value) : Checked Positive :=
  match integer v with
  | .error faults => .error faults
  | .ok n => if h : 1 ≤ n.toNat then .ok ⟨n.toNat, h⟩ else .fault .belowOne

/-! ## Members of a declaration -/

/-- A member that has to be there. -/
def required {α : Type} (members : Members) (key : String) (read : Value → Checked α) :
    Checked α :=
  Checked.under (.member key) (match Entries.get? key members with
    | some v => read v
    | none => .fault .missing)

/-- A member that has a value of its own when it is not there. -/
def optional {α : Type} (members : Members) (key : String) (default : α)
    (read : Value → Checked α) : Checked α :=
  Checked.under (.member key) (match Entries.get? key members with
    | some v => read v
    | none => .ok default)

/-- No member may be there besides these. -/
def onlyMembers (members : Members) (keys : List String) : Checked Unit :=
  match (Entries.keys members).filter fun key => !keys.contains key with
  | [] => .ok ()
  | unknown => .error (unknown.map fun key => ⟨[.member key], .unknownMember⟩)

end Declaration
end RecordProjection
