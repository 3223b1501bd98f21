import RecordProjection.Calendar.Timestamp
import RecordProjection.Json.Reader
import RecordProjection.Number.Shortest
import RecordProjection.Value

/-!
# Coercions

How the value of a field becomes a date, a moment or a decimal. Whatever cannot be read becomes
nothing at all, with two exceptions that are errors: a moment whose date in universal time lies
outside the calendar, and an integer with too many digits to be written.
-/
namespace RecordProjection

/-- The date of a moment in universal time lies outside the calendar. -/
structure DateOverflow where
  deriving DecidableEq

namespace DateOverflow

/-- The error in words. -/
def message (_ : DateOverflow) : String := "date value out of range"

end DateOverflow

/-- Why a value cannot be coerced. -/
inductive CoercionError
  | dateOverflow (e : DateOverflow)
  | integerTooLong
  deriving DecidableEq

namespace CoercionError

/-- The error in words. -/
def message : CoercionError → String
  | dateOverflow e => e.message
  | integerTooLong => Json.tooLongText ""

end CoercionError

namespace Value

/-- The moment that a value stands for: a moment, the start of a date, or a timestamp with blanks
around it. -/
def toMoment? : Value → Option Moment
  | moment m => some m
  | date d => some (.ofDate d)
  | text s => Timestamp.read? (Text.trimChars s.toList)
  | _ => none

/-- The date that a value stands for: a date, or the date of a moment in universal time. -/
def toDate? : Value → Except DateOverflow (Option Date)
  | date d => .ok (some d)
  | v =>
    match v.toMoment? with
    | none => .ok none
    | some m =>
      match m.utcDate? with
      | some d => .ok (some d)
      | none => .error ⟨⟩

/-- The text of the decimal that a value stands for. A text that is not blank is kept as it is, and
a number is written with all its digits. The limit on the digits of an integer holds for this text
too; there is none for the other numbers. -/
def toDecimalText? : Value → Except CoercionError (Option String)
  | int n =>
    if (Number.decimal n.natAbs).length ≤ Json.maxDigits then
      .ok (some (String.ofList (Number.integerText n)))
    else .error .integerTooLong
  | float x => .ok (if x.isFinite then some (String.ofList x.text) else none)
  | decimal d => .ok (if d.isFinite then some (String.ofList d.text) else none)
  | text s => .ok (if Text.isBlankText s then none else some s)
  | _ => .ok none

/-- A value read as a field of a type. Types other than the two of time and the decimal leave it as
it is. -/
def coerce (type : String) (v : Value) : Except CoercionError Value :=
  if type = "date" then
    (v.toDate?.map fun d => (d.map Value.date).getD null).mapError .dateOverflow
  else if type = "datetime" then .ok ((v.toMoment?.map moment).getD null)
  else if type = "Decimal" then v.toDecimalText?.map fun s => (s.map text).getD null
  else .ok v

end Value
end RecordProjection
