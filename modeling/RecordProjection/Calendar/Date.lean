import RecordProjection.Number.Digits

/-!
# Calendar dates

Days of the Gregorian calendar, extended backwards to the year 1 and ending with the year 9999.
`dayNumber` counts them from the first, whose number is 1; that day is a Monday.
-/
namespace RecordProjection

/-- A year with a twenty-ninth of February. -/
def isLeapYear (year : Nat) : Bool := year % 4 == 0 && (year % 100 != 0 || year % 400 == 0)

/-- The length of a month. -/
def daysInMonth (year month : Nat) : Nat :=
  if month = 2 then if isLeapYear year then 29 else 28
  else if month = 4 || month = 6 || month = 9 || month = 11 then 30
  else 31

/-- The length of a year. -/
def daysInYear (year : Nat) : Nat := if isLeapYear year then 366 else 365

/-- A day of the calendar. -/
structure Date where
  year : Nat
  month : Nat
  day : Nat
  year_bounds : 1 ≤ year ∧ year ≤ 9999
  month_bounds : 1 ≤ month ∧ month ≤ 12
  day_bounds : 1 ≤ day ∧ day ≤ daysInMonth year month
  deriving DecidableEq

namespace Date

/-- The day with these numbers, if the calendar has it. -/
def of? (year month day : Nat) : Option Date :=
  if h : (1 ≤ year ∧ year ≤ 9999) ∧ (1 ≤ month ∧ month ≤ 12) ∧
      1 ≤ day ∧ day ≤ daysInMonth year month
  then some ⟨year, month, day, h.1, h.2.1, h.2.2⟩
  else none

/-- The number of days before the first of January. -/
def daysBeforeYear (year : Nat) : Nat :=
  365 * (year - 1) + (year - 1) / 4 - (year - 1) / 100 + (year - 1) / 400

/-- The number of days of a year before the first of a month. -/
def daysBeforeMonth (year : Nat) : (month : Nat) → Nat
  | 0 | 1 => 0
  | month + 2 => daysBeforeMonth year (month + 1) + daysInMonth year (month + 1)

/-- The number of a day, counted from the first of January of the year 1. -/
def dayNumber (d : Date) : Nat :=
  daysBeforeYear d.year + daysBeforeMonth d.year d.month + d.day

/-- The day after, unless the calendar ends. -/
def next? (d : Date) : Option Date :=
  if d.day < daysInMonth d.year d.month then of? d.year d.month (d.day + 1)
  else if d.month < 12 then of? d.year (d.month + 1) 1
  else of? (d.year + 1) 1 1

/-- The day before, unless the calendar begins. -/
def previous? (d : Date) : Option Date :=
  if 1 < d.day then of? d.year d.month (d.day - 1)
  else if 1 < d.month then of? d.year (d.month - 1) (daysInMonth d.year (d.month - 1))
  else of? (d.year - 1) 12 31

/-- The month and the day of the month on which the `n`-th day after the start of the first of
these months falls. -/
def monthAndDay (year : Nat) : (months : List Nat) → (n : Nat) → Option (Nat × Nat)
  | [], _ => none
  | m :: ms, n =>
    if n ≤ daysInMonth year m then some (m, n) else monthAndDay year ms (n - daysInMonth year m)

/-- The `n`-th day of a year, counted from 1. -/
def ofYearDay? (year n : Nat) : Option Date :=
  (monthAndDay year (List.range' 1 12) n).bind fun (month, day) => of? year month day

/-- The weekday of the first of January, counted from Monday, which is nought. -/
def newYearWeekday (year : Nat) : Nat := daysBeforeYear year % 7

/-- The number of weeks of a year, in the count whose first week holds the first Thursday. -/
def weeksInYear (year : Nat) : Nat :=
  let first := newYearWeekday year
  if first = 3 || (first = 2 && isLeapYear year) then 53 else 52

/-- The day given by a year, a week and a day of the week, all counted from 1. The first week of
a year is the one with its first Thursday and may begin in the year before; the last may end in
the year after. -/
def ofIsoWeek? (year week day : Nat) : Option Date :=
  if 1 ≤ year && 1 ≤ week && week ≤ weeksInYear year && 1 ≤ day && day ≤ 7 then
    let first := newYearWeekday year
    let n : Int := 7 * (week - 1 : Nat) + day - first + (if 3 < first then 7 else 0)
    if n < 1 then ofYearDay? (year - 1) (n + daysInYear (year - 1)).toNat
    else if daysInYear year < n then ofYearDay? (year + 1) (n - daysInYear year).toNat
    else ofYearDay? year n.toNat
  else none

/-- A date as `YYYY-MM-DD`. -/
def text (d : Date) : List Char :=
  Number.fixedDecimal 4 d.year ++ '-' :: Number.fixedDecimal 2 d.month
    ++ '-' :: Number.fixedDecimal 2 d.day

end Date
end RecordProjection
