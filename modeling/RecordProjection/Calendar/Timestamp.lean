import RecordProjection.Calendar.Moment
import RecordProjection.Text.Blank
import RecordProjection.Text.Octets

/-!
# Timestamps

Reading a moment from text. A timestamp is a calendar date or a week date, with or without
separators, then optionally one character of any kind, a time, and an offset. The reader works on
the octets of the text; where it looks past the end it sees the character U+0000.

Two repairs come before the reader: a final `Z` or `z` becomes the offset `+00:00`, and the
fraction of a time that is followed by nothing or by an offset is brought to six digits.
-/
namespace RecordProjection.Timestamp

open Text Number

/-- The octet at the front of a text, or U+0000 at its end. -/
def front (s : List Char) : Char := s.headD '\x00'

/-! ## The date -/

/-- The length of the run of digits at the front of a text. -/
def digitRun (s : List Char) : Nat := (s.takeWhile isDigit).length

/-- How many octets of a timestamp belong to its date. -/
def dateWidth? (s : List Char) : Option Nat :=
  if s.length = 7 then some 7
  else if s[4]? = some '-' then
    if s[5]? = some 'W' then
      if s.length < 8 then none
      else if s[8]? = some '-' then
        if s.length = 9 then none
        else if (s[10]?.map isDigit).getD false then some 8
        else some 10
      else some 8
    else some 10
  else if s[4]? = some 'W' then
    let stop := 7 + digitRun (s.drop 7)
    if stop < 9 then some stop else if stop % 2 = 0 then some 7 else some 8
  else some 8

/-- A hyphen at the front of a text, if one has to be there, and the text behind it. -/
def readDash? (required : Bool) (s : List Char) : Option (List Char) :=
  match required, s with
  | false, s => some s
  | true, '-' :: s => some s
  | true, _ => none

/-- The week, and the day of the week where the date goes on, behind the `W` of a week date. -/
def readWeek? (dashed : Bool) (year used width : Nat) (s : List Char) : Option Date := do
  let (week, s) ← readDigits 2 0 s
  if used + 2 < width then
    let s ← readDash? dashed s
    let (day, _) ← readDigits 1 0 s
    Date.ofIsoWeek? year week day
  else Date.ofIsoWeek? year week 1

/-- The month and the day of a calendar date, which have to end where the date does. -/
def readMonthDay? (dashed : Bool) (year used width : Nat) (s : List Char) : Option Date := do
  let (month, s) ← readDigits 2 0 s
  let s ← readDash? dashed s
  let (day, _) ← readDigits 2 0 s
  if used + (if dashed then 5 else 4) = width then Date.of? year month day else none

/-- The date at the front of a timestamp, of a given width. -/
def readDate? (width : Nat) (s : List Char) : Option Date := do
  let (year, s) ← readDigits 4 0 s
  let (dashed, s) := match s with
    | '-' :: s => (true, s)
    | s => (false, s)
  let used := if dashed then 5 else 4
  match s with
  | 'W' :: s => readWeek? dashed year (used + 1) width s
  | s => readMonthDay? dashed year used width s

/-! ## The time -/

/-- Hours, minutes, seconds and microseconds as they were read, in that order; what is missing is
nought. `overrun` records that something was left unread behind them. -/
structure Clock where
  fields : List Nat
  microsecond : Nat
  overrun : Bool

namespace Clock

/-- The hours of a clock. -/
def hour (c : Clock) : Nat := c.fields.getD 0 0

/-- The minutes of a clock. -/
def minute (c : Clock) : Nat := c.fields.getD 1 0

/-- The seconds of a clock, without its minutes. -/
def second (c : Clock) : Nat := c.fields.getD 2 0

/-- The whole seconds of a clock. -/
def seconds (c : Clock) : Nat := c.hour * 3600 + c.minute * 60 + c.second

end Clock

/-- A fraction of a second: at most six digits, within the room that is left; the digits behind
them are passed over. -/
def readFraction? (room : Nat) (s : List Char) : Option Clock := do
  let count := min 6 room
  let (n, s) ← readDigits count 0 s
  some ⟨[], n * tenPow (6 - count), front (s.dropWhile isDigit) ≠ '\x00'⟩

/-- The fields of a clock, two digits each, and its fraction. `room` is the number of octets up to
the end of the clock. Whether colons stand between the fields shows behind the first one. The
octet behind the last field is read even if it lies beyond the end. -/
def readFields? :
    (count : Nat) → (colons : Option Bool) → (room : Nat) → List Char → Option Clock
  | 0, _, room, s => readFraction? room s
  | count + 1, colons, room, s => do
    let (n, s) ← readDigits 2 0 s
    let c := front s
    let colons := colons.getD (c = ':')
    let rest ←
      if room ≤ 3 then some ⟨[], 0, c ≠ '\x00'⟩
      else if colons && c = ':' then readFields? count (some colons) (room - 3) s.tail
      else if c = '.' || c = ',' then readFraction? (room - 3) s.tail
      else if !colons then readFields? count (some colons) (room - 2) s
      else none
    some { rest with fields := n :: rest.fields }

/-- A clock in the first `room` octets of a text. -/
def readClock? (room : Nat) (s : List Char) : Option Clock := readFields? 3 none room s

/-- An octet that begins an offset. -/
def startsOffset (c : Char) : Bool := c = '+' || c = '-' || c = 'Z'

/-- The offset that follows a sign. One of no whole second is universal time. -/
def readOffset? (negative : Bool) (s : List Char) : Option Offset := do
  let clock ← readClock? s.length s
  if clock.overrun then none
  else if clock.seconds = 0 then some .utc
  else
    let n : Int := clock.seconds * 1000000 + clock.microsecond
    Offset.of? (if negative then -n else n)

/-- A time with an optional offset. What stands between the two is passed over; without an offset
nothing may be left. -/
def readTime? (s : List Char) : Option (TimeOfDay × Option Offset) := do
  let room := (s.takeWhile fun c => !startsOffset c).length
  let clock ← readClock? room s
  let offset ← match s.drop room with
    | [] => if clock.overrun then none else some none
    | 'Z' :: behind => if front behind = '\x00' then some (some .utc) else none
    | sign :: behind => (readOffset? (sign = '-') behind).map some
  let time ← TimeOfDay.of? clock.hour clock.minute clock.second clock.microsecond
  some (time, offset)

/-! ## The whole timestamp -/

/-- The text behind the separator, which is one character of one to four octets. -/
def dropSeparator (s : List Char) : List Char :=
  let n := (front s).toNat
  if n < 0x80 then s.drop 1
  else if n / 16 = 0xE then s.drop 3
  else if n / 16 = 0xF then s.drop 4
  else s.drop 2

/-- The moment that a timestamp stands for as it is. -/
def readExact? (cs : List Char) : Option Moment := do
  if cs.length < 7 then none
  let s := octets cs
  let width ← dateWidth? s
  let date ← readDate? width s
  if s.length ≤ width then some (.ofDate date)
  else
    let (time, offset) ← readTime? (dropSeparator (s.drop width))
    some ⟨date, time, offset⟩

/-! ## Repairs -/

/-- A final `Z` or `z` becomes `+00:00`. -/
def expandZulu (cs : List Char) : List Char :=
  match cs.getLast? with
  | some c => if c = 'Z' || c = 'z' then cs.dropLast ++ "+00:00".toList else cs
  | none => cs

/-- A text that is empty, or a signed offset in hours and minutes with or without a colon. -/
def isOffsetOrEnd : List Char → Bool
  | [] => true
  | [s, a, b, c, d] => (s = '+' || s = '-') && [a, b, c, d].all isDecimalDigit
  | [s, a, b, m, c, d] => (s = '+' || s = '-') && m = ':' && [a, b, c, d].all isDecimalDigit
  | _ => false

/-- A `T`, a time of three fields and a point, at the front of a text. -/
def isTimeBeforePoint (cs : List Char) : Bool :=
  match cs with
  | ['T', a, b, p, c, d, q, e, f, r] =>
    p = ':' && q = ':' && r = '.' && [a, b, c, d, e, f].all isDecimalDigit
  | _ => false

/-- A text that starts with a time, a fraction and nothing but an offset behind it, with the
fraction brought to six digits. -/
def normalizedTime? (cs : List Char) : Option (List Char) :=
  if isTimeBeforePoint (cs.take 10) then
    let digits := (cs.drop 10).takeWhile isDecimalDigit
    let behind := (cs.drop 10).dropWhile isDecimalDigit
    if digits ≠ [] && isOffsetOrEnd behind then
      some (cs.take 10 ++ digits.take 6 ++ List.replicate (6 - digits.length) '0' ++ behind)
    else none
  else none

/-- The text with the first such time in it normalized, if there is one. -/
def normalizeFraction : List Char → List Char
  | [] => []
  | c :: cs => (normalizedTime? (c :: cs)).getD (c :: normalizeFraction cs)

/-- The moment that a timestamp without blanks at its ends stands for, once it is repaired. -/
def read? (cs : List Char) : Option Moment :=
  readExact? (normalizeFraction (expandZulu cs))

end RecordProjection.Timestamp
