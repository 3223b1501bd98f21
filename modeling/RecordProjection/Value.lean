import RecordProjection.Entries
import RecordProjection.Number.Binary64
import RecordProjection.Number.Decimal
import RecordProjection.Calendar.Moment

/-!
# Values

What a record is made of: the values of a data format, together with the dates, moments and
decimals that reading a field can give.
-/
namespace RecordProjection

/-- A value. The members of a mapping keep their order, and their keys are distinct. -/
inductive Value
  | null
  | bool (b : Bool)
  | int (n : Int)
  | float (x : Binary64)
  | decimal (d : Decimal)
  | text (s : String)
  | date (d : Date)
  | moment (m : Moment)
  | list (items : List Value)
  | mapping (members : List (String × Value))

/-- The members of a mapping. -/
abbrev Members := Entries String Value

namespace Value

instance : Inhabited Value := ⟨null⟩

/-- The name of a kind of value in messages. -/
def kindName : Value → String
  | null => "null"
  | bool _ => "bool"
  | int _ => "int"
  | float _ => "float"
  | decimal _ => "Decimal"
  | text _ => "str"
  | date _ => "date"
  | moment _ => "datetime"
  | list _ => "list"
  | mapping _ => "dict"

/-- The full name of a kind of value, with the family that it belongs to. -/
def fullKindName : Value → String
  | null => "NoneType"
  | date _ => "datetime.date"
  | moment _ => "datetime.datetime"
  | decimal _ => "decimal.Decimal"
  | v => v.kindName

theorem list_or_not (v : Value) : (∃ items, v = list items) ∨ ∀ items, v ≠ list items := by
  cases v <;> simp

theorem mapping_or_not (v : Value) :
    (∃ members, v = mapping members) ∨ ∀ members, v ≠ mapping members := by
  cases v <;> simp

end Value
end RecordProjection
