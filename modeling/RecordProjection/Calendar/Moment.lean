import RecordProjection.Calendar.Date

/-!
# Moments

A date with a time of day, to the microsecond, and possibly an offset from universal time. The
date of a moment in universal time is its own date, the day before it or the day after it.
-/
namespace RecordProjection

/-- A time of day, to the microsecond. -/
structure TimeOfDay where
  hour : Nat
  minute : Nat
  second : Nat
  microsecond : Nat
  hour_lt : hour < 24
  minute_lt : minute < 60
  second_lt : second < 60
  microsecond_lt : microsecond < 1000000
  deriving DecidableEq

namespace TimeOfDay

/-- The start of a day. -/
def midnight : TimeOfDay := ⟨0, 0, 0, 0, by decide, by decide, by decide, by decide⟩

/-- The time with these numbers, if a day has it. -/
def of? (hour minute second microsecond : Nat) : Option TimeOfDay :=
  if h : hour < 24 ∧ minute < 60 ∧ second < 60 ∧ microsecond < 1000000 then
    some ⟨hour, minute, second, microsecond, h.1, h.2.1, h.2.2.1, h.2.2.2⟩
  else none

/-- The microseconds since midnight. -/
def sinceMidnight (t : TimeOfDay) : Nat :=
  ((t.hour * 60 + t.minute) * 60 + t.second) * 1000000 + t.microsecond

/-- A fraction of a second, left out when it is nought. -/
def fractionText (microsecond : Nat) : List Char :=
  if microsecond = 0 then [] else '.' :: Number.fixedDecimal 6 microsecond

/-- A time as `HH:MM:SS`, with its fraction. -/
def text (t : TimeOfDay) : List Char :=
  Number.fixedDecimal 2 t.hour ++ ':' :: Number.fixedDecimal 2 t.minute
    ++ ':' :: Number.fixedDecimal 2 t.second ++ fractionText t.microsecond

end TimeOfDay

/-- The microseconds of a day. -/
def dayLength : Nat := 86400000000

/-- An offset from universal time, in microseconds: less than a day in either direction. -/
structure Offset where
  microseconds : Int
  lower : -(dayLength : Int) < microseconds
  upper : microseconds < (dayLength : Int)
  deriving DecidableEq

namespace Offset

/-- Universal time itself. -/
def utc : Offset := ⟨0, by decide, by decide⟩

/-- The offset of so many microseconds, if it is less than a day. -/
def of? (microseconds : Int) : Option Offset :=
  if h : -(dayLength : Int) < microseconds ∧ microseconds < (dayLength : Int) then
    some ⟨microseconds, h.1, h.2⟩
  else none

/-- An offset as `+HH:MM`, with its seconds and their fraction when it is no whole minute. -/
def text (o : Offset) : List Char :=
  let size := o.microseconds.natAbs
  let seconds := size / 1000000
  (if o.microseconds < 0 then '-' else '+') :: Number.fixedDecimal 2 (seconds / 3600)
    ++ ':' :: Number.fixedDecimal 2 (seconds / 60 % 60)
    ++ (if size % 60000000 = 0 then [] else ':' :: Number.fixedDecimal 2 (seconds % 60))
    ++ TimeOfDay.fractionText (size % 1000000)

end Offset

/-- A date and time, with an offset from universal time if one is known. -/
structure Moment where
  date : Date
  time : TimeOfDay
  offset : Option Offset
  deriving DecidableEq

namespace Moment

/-- The start of a day, without an offset. -/
def ofDate (d : Date) : Moment := ⟨d, .midnight, none⟩

/-- The date of a moment in universal time; its own date when it has no offset. There is none
when that day lies outside the calendar. -/
def utcDate? (m : Moment) : Option Date :=
  match m.offset with
  | none => some m.date
  | some o =>
    let universal : Int := m.time.sinceMidnight - o.microseconds
    if universal < 0 then m.date.previous?
    else if universal < dayLength then some m.date
    else m.date.next?

/-- A moment as date, `T`, time and offset. -/
def text (m : Moment) : List Char :=
  m.date.text ++ 'T' :: m.time.text ++ (m.offset.map Offset.text).getD []

end Moment
end RecordProjection
