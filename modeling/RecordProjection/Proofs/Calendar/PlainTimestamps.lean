import RecordProjection.Proofs.Calendar.WrittenMoments
import RecordProjection.Proofs.Text.Trimming
import RecordProjection.Record.Coercion

/-!
# Plain timestamps

A plain timestamp is a date with hyphens and possibly a `T` and a time with colons, any number of
digits of a fraction, and a suffix that names universal time or an offset from it. With or without
blanks around it, it is read as the moment of its numbers, without the digits of the fraction behind
the sixth. When the calendar has no such day, or a day no such time, it is read as nothing.

## Main definitions

* `Timestamp.Suffix` : what may stand behind a time.
* `Timestamp.PlainTime`, `PlainTimestamp` : the parts of a plain timestamp.
* `PlainTimestamp.InRange` : there is such a day and such a time.
* `PlainTimestamp.Denotes` : a moment has the numbers of a plain timestamp.
-/
namespace RecordProjection

open Text Number

namespace Timestamp

/-! ## Their parts -/

/-- What may stand behind a time: nothing, a letter for universal time, or an offset in hours and
minutes with or without a colon. -/
inductive Suffix
  | missing
  | zulu (upper : Bool)
  | offset (negative colon : Bool) (hour minute : Digits 2) (hour_le : hour.value ≤ 23)
      (minute_le : minute.value ≤ 59)

namespace Suffix

/-- A suffix as it is written. -/
def chars : Suffix → List Char
  | missing => []
  | zulu upper => [if upper then 'Z' else 'z']
  | offset negative colon hour minute _ _ =>
    (if negative then '-' else '+') :: hour.chars ++ (if colon then [':'] else []) ++ minute.chars

/-- The microseconds of the offset that a suffix names. -/
def microseconds? : Suffix → Option Int
  | missing => none
  | zulu _ => some 0
  | offset negative _ hour minute _ _ =>
    let size : Int := (hour.value * 60 + minute.value) * 60000000
    some (if negative then -size else size)

end Suffix

/-- A time with two digits for each field, digits of a fraction if there are any, and a suffix. -/
structure PlainTime where
  hour : Digits 2
  minute : Digits 2
  second : Digits 2
  fraction : List Char
  suffix : Suffix
  isDigit_of_mem : ∀ c ∈ fraction, isDigit c = true

namespace PlainTime

/-- A point and the digits of a fraction, if there are any. -/
def fractionChars (t : PlainTime) : List Char :=
  if t.fraction = [] then [] else '.' :: t.fraction

/-- A time as it is written. -/
def chars (t : PlainTime) : List Char :=
  t.hour.chars ++ ':' :: t.minute.chars ++ ':' :: t.second.chars ++ t.fractionChars
    ++ t.suffix.chars

/-- The microseconds of a time, which are the first six digits of its fraction as a number. -/
def microsecond (t : PlainTime) : Nat := ofDigits (sixDigits t.fraction)

end PlainTime
end Timestamp

open Timestamp

/-- A date with hyphens, and possibly a time. -/
structure PlainTimestamp where
  year : Digits 4
  month : Digits 2
  day : Digits 2
  time : Option PlainTime

namespace PlainTimestamp

/-- A timestamp as it is written. -/
def chars (s : PlainTimestamp) : List Char :=
  s.year.chars ++ '-' :: s.month.chars ++ '-' :: s.day.chars
    ++ ((s.time.map fun t => 'T' :: t.chars).getD [])

/-- The calendar has the day of a timestamp, and a day has its time. -/
def InRange (s : PlainTimestamp) : Prop :=
  ((1 ≤ s.year.value ∧ s.year.value ≤ 9999) ∧ (1 ≤ s.month.value ∧ s.month.value ≤ 12) ∧
    1 ≤ s.day.value ∧ s.day.value ≤ daysInMonth s.year.value s.month.value) ∧
  ∀ t ∈ s.time, t.hour.value ≤ 23 ∧ t.minute.value ≤ 59 ∧ t.second.value ≤ 59

/-- A moment has the numbers of a timestamp; without a time it is the start of the day. -/
def Denotes (s : PlainTimestamp) (m : Moment) : Prop :=
  (m.date.year = s.year.value ∧ m.date.month = s.month.value ∧ m.date.day = s.day.value) ∧
  match s.time with
  | none => m.time = .midnight ∧ m.offset = none
  | some t => (m.time.hour = t.hour.value ∧ m.time.minute = t.minute.value ∧
      m.time.second = t.second.value ∧ m.time.microsecond = t.microsecond) ∧
    m.offset.map Offset.microseconds = t.suffix.microseconds?

end PlainTimestamp

namespace Timestamp

/-! ## Suffixes -/

namespace Suffix

/-- A suffix in which a letter for universal time is written out as an offset. -/
def expanded : Suffix → List Char
  | zulu _ => "+00:00".toList
  | s => s.chars

theorem forall_mem_expanded {p : Char → Prop} (hdigit : ∀ c, isDigit c = true → p c)
    (hminus : p '-') (hplus : p '+') (hcolon : p ':') (s : Suffix) : ∀ c ∈ s.expanded, p c := by
  cases s with
  | missing => simp [expanded, chars]
  | zulu upper =>
    have hnought : p '0' := hdigit _ rfl
    simp [expanded, hplus, hcolon, hnought]
  | offset negative colon hour minute _ _ =>
    have hdigits (d : Digits 2) : ∀ c ∈ d.chars, p c := fun c hc => hdigit c (d.isDigit_of_mem c hc)
    have hsign : p (if negative then '-' else '+') := by cases negative <;> assumption
    have hcolons : ∀ c ∈ (if colon then [':'] else []), p c := by
      cases colon <;> simp [hcolon]
    simp only [expanded, chars, List.forall_mem_append, List.forall_mem_cons]
    exact ⟨⟨⟨hsign, hdigits hour⟩, hcolons⟩, hdigits minute⟩

theorem isWritten_of_mem_expanded (s : Suffix) : ∀ c ∈ s.expanded, isWritten c = true :=
  forall_mem_expanded (fun _ => isWritten_of_isDigit) rfl rfl rfl s

/-- An expanded suffix is empty or begins with a sign. -/
theorem head?_expanded (s : Suffix) : ∀ c ∈ s.expanded.head?, c = '-' ∨ c = '+' := by
  cases s with
  | missing => simp [expanded, chars]
  | zulu upper => simp [expanded]
  | offset negative colon hour minute _ _ => cases negative <;> simp [expanded, chars]

theorem expandZulu_append (s : Suffix) {p : List Char} (hp : ∀ c ∈ p, isWritten c = true) :
    expandZulu (p ++ s.chars) = p ++ s.expanded := by
  have hsame (h : s.chars = s.expanded) : expandZulu (p ++ s.chars) = p ++ s.expanded := by
    rw [h]
    exact expandZulu_of_isWritten (List.forall_mem_append.2 ⟨hp, s.isWritten_of_mem_expanded⟩)
  cases s with
  | zulu upper => cases upper <;> simp [chars, expanded, expandZulu]
  | missing => exact hsame rfl
  | offset negative colon hour minute _ _ => exact hsame rfl

theorem isBlank_of_mem_chars (s : Suffix) : ∀ c ∈ s.chars, isBlank c = false := by
  have hexpanded : ∀ c ∈ s.expanded, isBlank c = false :=
    fun c hc => isBlank_of_isWritten (s.isWritten_of_mem_expanded c hc)
  cases s with
  | zulu upper => cases upper <;> exact List.forall_mem_singleton.2 rfl
  | missing => exact hexpanded
  | offset negative colon hour minute _ _ => exact hexpanded

/-- The hours and minutes of an offset, with or without a colon. -/
theorem readClock?_hourMinute (colon : Bool) (hour minute : Digits 2) :
    let cs := hour.chars ++ (if colon then [':'] else []) ++ minute.chars
    readClock? cs.length cs = some ⟨[hour.value, minute.value], 0, false⟩ := by
  rw [hour.chars_eq, minute.chars_eq]
  cases colon with
  | true => simpa using readClock?_two hour.value_lt minute.value_lt
  | false => simpa using Timestamp.readClock?_pair hour.value_lt minute.value_lt

/-- Hours and minutes that a day has are read as an offset of that length. -/
theorem readOffset?_pair (negative colon : Bool) {hour minute : Digits 2}
    (hhour : hour.value ≤ 23) (hminute : minute.value ≤ 59) :
    ∃ o, readOffset? negative (hour.chars ++ (if colon then [':'] else []) ++ minute.chars) =
      some o ∧
      some o.microseconds = (offset negative colon hour minute hhour hminute).microseconds? := by
  have hclock := readClock?_hourMinute colon hour minute
  have hseconds : (⟨[hour.value, minute.value], 0, false⟩ : Clock).seconds =
    hour.value * 3600 + minute.value * 60 + 0 := rfl
  simp only [readOffset?, hclock, Option.bind_eq_bind, Option.bind_some, hseconds,
    Bool.false_eq_true, if_false, microseconds?]
  split
  · have hzero : hour.value = 0 ∧ minute.value = 0 := by omega
    refine ⟨.utc, rfl, ?_⟩
    cases negative <;> simp [hzero, Offset.utc]
  · have hbounds (n : Int) (hn : n = (hour.value * 60 + minute.value) * 60000000 ∨
        n = -((hour.value * 60 + minute.value) * 60000000)) :
        -(dayLength : Int) < n ∧ n < (dayLength : Int) := by
      rw [dayLength]
      omega
    have hsize : (↑(hour.value * 3600 + minute.value * 60) * 1000000 + ↑0 : Int) =
      (hour.value * 60 + minute.value) * 60000000 := by omega
    cases negative <;>
      exact ⟨_, by rw [Offset.of?, dif_pos (hbounds _ (by omega))], by simpa using hsize⟩

/-- An expanded suffix is read as the offset that the suffix names, behind a clock of which nothing
is left. -/
theorem readZone?_expanded (s : Suffix) : ∃ o,
    readZone? (front s.expanded ≠ '\x00') s.expanded = some o ∧
      o.map Offset.microseconds = s.microseconds? := by
  cases s with
  | missing => exact ⟨none, rfl, rfl⟩
  | zulu upper => exact ⟨some .utc, rfl, rfl⟩
  | offset negative colon hour minute hhour hminute =>
    obtain ⟨o, hread, ho⟩ := readOffset?_pair negative colon hhour hminute
    refine ⟨some o, ?_, ho⟩
    cases negative with
    | true =>
      show (readOffset? (decide ('-' = '-')) _).map some = _
      exact congrArg (Option.map some) hread
    | false =>
      show (readOffset? (decide ('+' = '-')) _).map some = _
      exact congrArg (Option.map some) hread

/-- An expanded suffix may stand behind a fraction. -/
theorem isOffsetOrEnd_expanded (s : Suffix) : isOffsetOrEnd s.expanded = true := by
  have hdigits (d : Digits 2) : ∃ a b, d.chars = [a, b] ∧ isDecimalDigit a = true ∧
      isDecimalDigit b = true := by
    obtain ⟨a, b, hab⟩ := List.length_eq_two.1 d.length_eq
    have hall := d.isDigit_of_mem
    rw [hab] at hall
    exact ⟨a, b, hab, isDecimalDigit_of_isDigit (hall a (by simp)),
      isDecimalDigit_of_isDigit (hall b (by simp))⟩
  cases s with
  | missing => rfl
  | zulu upper => rfl
  | offset negative colon hour minute _ _ =>
    obtain ⟨a, b, hhour, ha, hb⟩ := hdigits hour
    obtain ⟨c, d, hminute, hc, hd⟩ := hdigits minute
    cases negative <;> cases colon <;>
      simp [expanded, chars, hhour, hminute, isOffsetOrEnd, ha, hb, hc, hd]

end Suffix

/-! ## Times -/

namespace PlainTime
variable (t : PlainTime)

/-- The hours, minutes and seconds of a time as they are written. -/
def seconds : List Char := secondsText t.hour.value t.minute.value t.second.value

/-- A point and six digits, if there is a fraction. -/
def repairedFraction : List Char := if t.fraction = [] then [] else '.' :: sixDigits t.fraction

theorem chars_eq : t.chars = t.seconds ++ t.fractionChars ++ t.suffix.chars := by
  rw [chars, t.hour.chars_eq, t.minute.chars_eq, t.second.chars_eq]
  simp [seconds, secondsText]

theorem microsecond_lt : t.microsecond < 1000000 := ofDigits_sixDigits_lt t.isDigit_of_mem

theorem forall_mem_fractionChars {p : Char → Prop} (hdigit : ∀ c, isDigit c = true → p c)
    (hpoint : p '.') : ∀ c ∈ t.fractionChars, p c := by
  rw [fractionChars]
  split
  · simp
  · exact List.forall_mem_cons.2 ⟨hpoint, fun c hc => hdigit c (t.isDigit_of_mem c hc)⟩

theorem forall_mem_repairedFraction {p : Char → Prop} (hdigit : ∀ c, isDigit c = true → p c)
    (hpoint : p '.') : ∀ c ∈ t.repairedFraction, p c := by
  rw [repairedFraction]
  split
  · simp
  · exact List.forall_mem_cons.2 ⟨hpoint, forall_mem_sixDigits (hdigit _ rfl) fun c hc =>
      hdigit c (t.isDigit_of_mem c hc)⟩

theorem isBlank_of_mem_chars : ∀ c ∈ t.chars, isBlank c = false := by
  have hdigit (c : Char) (hc : isDigit c = true) : isBlank c = false :=
    isBlank_of_isWritten (isWritten_of_isDigit hc)
  rw [t.chars_eq, List.forall_mem_append, List.forall_mem_append]
  exact ⟨⟨forall_mem_secondsText hdigit (by decide) _ _ _,
    t.forall_mem_fractionChars hdigit (by decide)⟩, t.suffix.isBlank_of_mem_chars⟩

/-- A time is repaired to one with six digits of a fraction, if it has any, and its suffix written
out. -/
def repaired : List Char := t.seconds ++ t.repairedFraction ++ t.suffix.expanded

theorem isWritten_of_mem_repaired : ∀ c ∈ t.repaired, isWritten c = true := by
  have hdigit (c : Char) (hc : isDigit c = true) : isWritten c = true := isWritten_of_isDigit hc
  rw [repaired, List.forall_mem_append, List.forall_mem_append]
  exact ⟨⟨forall_mem_secondsText hdigit rfl _ _ _, t.forall_mem_repairedFraction hdigit rfl⟩,
    t.suffix.isWritten_of_mem_expanded⟩

/-- Seconds that a point follows are a time before a point. -/
theorem isTimeBeforePoint_seconds (c : Char) (r : List Char) :
    isTimeBeforePoint (('T' :: (t.seconds ++ c :: r)).take 10) = decide (c = '.') := by
  have hdigit (n : Nat) : isDecimalDigit (digitChar (n % 10)) = true :=
    isDecimalDigit_of_isDigit (isDigit_digitChar (Nat.mod_lt n (by omega)))
  simp [seconds, secondsText, fixedDecimal, isTimeBeforePoint, hdigit]

/-- The fraction ends where the suffix begins. -/
theorem span_fraction : (t.fraction ++ t.suffix.expanded).takeWhile isDecimalDigit = t.fraction ∧
    (t.fraction ++ t.suffix.expanded).dropWhile isDecimalDigit = t.suffix.expanded := by
  have hdigits : ∀ c ∈ t.fraction, isDecimalDigit c = true :=
    fun c hc => isDecimalDigit_of_isDigit (t.isDigit_of_mem c hc)
  rw [List.takeWhile_append_of_pos hdigits, List.dropWhile_append_of_pos hdigits]
  cases h : t.suffix.expanded with
  | nil => simp
  | cons c r =>
    have hc := isDecimalDigit_of_sign (t.suffix.head?_expanded c (by simp [h]))
    simp [hc]

/-- The fraction of a time is normalized to six digits. -/
theorem normalizedTime?_point (hfraction : t.fraction ≠ []) :
    normalizedTime? ('T' :: (t.seconds ++ '.' :: (t.fraction ++ t.suffix.expanded))) =
      some ('T' :: t.repaired) := by
  have hsplit : ('T' :: (t.seconds ++ ['.'])).length = 10 := by simp [seconds]
  have hcs : 'T' :: (t.seconds ++ '.' :: (t.fraction ++ t.suffix.expanded)) =
      'T' :: (t.seconds ++ ['.']) ++ (t.fraction ++ t.suffix.expanded) := by simp
  have htime := t.isTimeBeforePoint_seconds '.' (t.fraction ++ t.suffix.expanded)
  rw [normalizedTime?, htime, hcs, List.take_left' hsplit, List.drop_left' hsplit,
    t.span_fraction.1, t.span_fraction.2]
  simp [hfraction, t.suffix.isOffsetOrEnd_expanded, repaired, repairedFraction, sixDigits]

/-- Without a fraction nothing is normalized. -/
theorem normalizedTime?_suffix :
    normalizedTime? ('T' :: (t.seconds ++ t.suffix.expanded)) = none := by
  have htime : isTimeBeforePoint (('T' :: (t.seconds ++ t.suffix.expanded)).take 10) = false := by
    cases h : t.suffix.expanded with
    | nil => simp [seconds, secondsText, fixedDecimal, isTimeBeforePoint]
    | cons c r =>
      rw [t.isTimeBeforePoint_seconds]
      rcases t.suffix.head?_expanded c (by simp [h]) with rfl | rfl <;> decide
  rw [normalizedTime?, htime, if_neg Bool.false_ne_true]

/-- A time is repaired as a whole. -/
theorem normalizeFraction_time :
    normalizeFraction ('T' :: (t.seconds ++ t.fractionChars ++ t.suffix.expanded)) =
      'T' :: t.repaired := by
  rw [normalizeFraction, fractionChars, List.append_assoc]
  by_cases h : t.fraction = []
  · have hT : 'T' ∉ t.seconds ++ t.suffix.expanded := by
      have hdigit (c : Char) (hc : isDigit c = true) : c ≠ 'T' := ne_T_of_isDigit hc
      rw [List.mem_append, not_or]
      exact ⟨fun hmem => forall_mem_secondsText hdigit (by decide) _ _ _ _ hmem rfl,
        fun hmem => t.suffix.forall_mem_expanded hdigit (by decide) (by decide) (by decide) _
          hmem rfl⟩
    rw [if_pos h, List.nil_append, t.normalizedTime?_suffix, normalizeFraction_eq_self hT]
    simp [repaired, repairedFraction, h]
  · rw [if_neg h, List.cons_append, t.normalizedTime?_point h]
    rfl

/-- The clock of a repaired time, and what stands behind it is looked at. -/
theorem readClock?_repaired : readClock? (t.seconds ++ t.repairedFraction).length t.repaired =
    some ⟨[t.hour.value, t.minute.value, t.second.value], t.microsecond,
      front t.suffix.expanded ≠ '\x00'⟩ := by
  have hhour := t.hour.value_lt
  have hminute := t.minute.value_lt
  have hsecond := t.second.value_lt
  rw [repaired, repairedFraction]
  split
  · next hfraction =>
    have hmicro : t.microsecond = 0 := by
      rw [microsecond, sixDigits, hfraction]
      decide
    simpa [seconds, hmicro] using readClock?_seconds hhour hminute hsecond t.suffix.expanded
  · have hend : EndsDigits t.suffix.expanded := by
      intro c hc
      rcases t.suffix.head?_expanded c hc with rfl | rfl <;> rfl
    have hsix : sixDigits t.fraction = fixedDecimal 6 t.microsecond := sixDigits_eq t.isDigit_of_mem
    rw [hsix]
    simpa [seconds] using readClock?_fraction hhour hminute hsecond t.microsecond_lt hend

/-- A repaired time is read as the time of its numbers, with the offset that its suffix names. -/
theorem readTime?_repaired : ∃ o, readTime? t.repaired =
      (TimeOfDay.of? t.hour.value t.minute.value t.second.value t.microsecond).map
        (fun time => (time, o)) ∧
    o.map Offset.microseconds = t.suffix.microseconds? := by
  obtain ⟨o, hread, ho⟩ := t.suffix.readZone?_expanded
  refine ⟨o, ?_, ho⟩
  have hdigit (c : Char) (hc : isDigit c = true) : startsOffset c = false :=
    startsOffset_of_isDigit hc
  have hclock : ∀ c ∈ t.seconds ++ t.repairedFraction, startsOffset c = false :=
    List.forall_mem_append.2 ⟨forall_mem_secondsText hdigit rfl _ _ _,
      t.forall_mem_repairedFraction hdigit rfl⟩
  have hzone : ∀ c ∈ t.suffix.expanded.head?, startsOffset c = true := by
    intro c hc
    rcases t.suffix.head?_expanded c hc with rfl | rfl <;> rfl
  have hread' := t.readClock?_repaired
  rw [repaired] at hread' ⊢
  rw [readTime?_append hclock hzone, hread', Option.bind_some, hread, Option.bind_some]
  rfl

end PlainTime
end Timestamp

/-! ## Whole timestamps -/

namespace PlainTimestamp
variable (s : PlainTimestamp)

/-- The date of a timestamp as it is written. -/
def dateChars : List Char := dateText s.year.value s.month.value s.day.value

theorem chars_eq : s.chars = s.dateChars ++ (s.time.map fun t => 'T' :: t.chars).getD [] := by
  rw [chars, s.year.chars_eq, s.month.chars_eq, s.day.chars_eq]
  rfl

theorem isWritten_of_mem_dateChars : ∀ c ∈ s.dateChars, isWritten c = true :=
  isWritten_of_mem_dateText

theorem T_notMem_dateChars : 'T' ∉ s.dateChars := by
  have hdigit (c : Char) (hc : isDigit c = true) : c ≠ 'T' := ne_T_of_isDigit hc
  exact fun h => forall_mem_dateText hdigit (by decide) _ _ _ _ h rfl

theorem expandZulu_time (t : PlainTime) : expandZulu (s.dateChars ++ 'T' :: t.chars) =
    s.dateChars ++ 'T' :: (t.seconds ++ t.fractionChars ++ t.suffix.expanded) := by
  have hdigit (c : Char) (hc : isDigit c = true) : isWritten c = true := isWritten_of_isDigit hc
  have hwritten : ∀ c ∈ s.dateChars ++ 'T' :: (t.seconds ++ t.fractionChars),
      isWritten c = true := by
    simp only [List.forall_mem_append, List.forall_mem_cons]
    exact ⟨s.isWritten_of_mem_dateChars, rfl, forall_mem_secondsText hdigit rfl _ _ _,
      t.forall_mem_fractionChars hdigit rfl⟩
  have h := t.suffix.expandZulu_append hwritten
  rw [t.chars_eq]
  simpa using h

theorem read?_date (htime : s.time = none) :
    read? s.chars = (Date.of? s.year.value s.month.value s.day.value).map .ofDate := by
  have hzulu : expandZulu s.dateChars = s.dateChars :=
    expandZulu_of_isWritten s.isWritten_of_mem_dateChars
  rw [read?, s.chars_eq, htime, Option.map_none, Option.getD_none, List.append_nil, hzulu,
    normalizeFraction_eq_self s.T_notMem_dateChars, dateChars,
    readExact?_dateText s.year.value_lt s.month.value_lt s.day.value_lt]

theorem read?_time {t : PlainTime} (htime : s.time = some t) : ∃ o, read? s.chars =
      ((Date.of? s.year.value s.month.value s.day.value).bind fun date =>
        (TimeOfDay.of? t.hour.value t.minute.value t.second.value t.microsecond).map
          fun time => ⟨date, time, o⟩) ∧
    o.map Offset.microseconds = t.suffix.microseconds? := by
  obtain ⟨o, hread, ho⟩ := t.readTime?_repaired
  refine ⟨o, ?_, ho⟩
  rw [read?, s.chars_eq, htime, Option.map_some, Option.getD_some, s.expandZulu_time,
    normalizeFraction_append s.T_notMem_dateChars, t.normalizeFraction_time, dateChars,
    readExact?_dateText_append s.year.value_lt s.month.value_lt s.day.value_lt
      t.isWritten_of_mem_repaired, hread]
  simp only [Option.map_map]
  rfl

/-- A timestamp whose day and time exist is read as the moment of its numbers, and any other one as
nothing. -/
theorem read?_chars : (s.InRange → ∃ m, read? s.chars = some m ∧ s.Denotes m) ∧
    (¬ s.InRange → read? s.chars = none) := by
  cases htime : s.time with
  | none =>
    rw [s.read?_date htime, Date.of?]
    constructor
    · rintro ⟨hday, -⟩
      rw [dif_pos hday]
      exact ⟨_, rfl, ⟨rfl, rfl, rfl⟩, by rw [htime]; exact ⟨rfl, rfl⟩⟩
    · intro hrange
      rw [dif_neg fun hday => hrange ⟨hday, by simp [htime]⟩]
      rfl
  | some t =>
    obtain ⟨o, hread, ho⟩ := s.read?_time htime
    rw [hread, Date.of?, TimeOfDay.of?]
    constructor
    · rintro ⟨hday, hclock⟩
      obtain ⟨hhour, hminute, hsecond⟩ := hclock t htime
      rw [dif_pos hday, dif_pos ⟨by omega, by omega, by omega, t.microsecond_lt⟩]
      exact ⟨_, rfl, ⟨rfl, rfl, rfl⟩, by rw [htime]; exact ⟨⟨rfl, rfl, rfl, rfl⟩, ho⟩⟩
    · intro hrange
      by_cases hday : (1 ≤ s.year.value ∧ s.year.value ≤ 9999) ∧
          (1 ≤ s.month.value ∧ s.month.value ≤ 12) ∧
          1 ≤ s.day.value ∧ s.day.value ≤ daysInMonth s.year.value s.month.value
      · rw [dif_pos hday, dif_neg]
        · rfl
        · rintro ⟨hhour, hminute, hsecond, -⟩
          refine hrange ⟨hday, fun t' ht' => ?_⟩
          obtain rfl : t = t' := Option.some.inj (htime.symm.trans ht')
          omega
      · rw [dif_neg hday]
        rfl

theorem isBlank_of_mem_chars : ∀ c ∈ s.chars, isBlank c = false := by
  have hdate : ∀ c ∈ s.dateChars, isBlank c = false :=
    fun c hc => isBlank_of_isWritten (s.isWritten_of_mem_dateChars c hc)
  rw [s.chars_eq, List.forall_mem_append]
  refine ⟨hdate, ?_⟩
  cases s.time with
  | none => simp
  | some t => exact List.forall_mem_cons.2 ⟨by decide, t.isBlank_of_mem_chars⟩

/-- A timestamp is read as the moment of its numbers, whatever blanks stand around it, when there
are such a day and such a time, and as nothing when there are not. -/
theorem toMoment?_between_blanks {w w' : List Char} (hw : Blanks w) (hw' : Blanks w') :
    (s.InRange → ∃ m,
      (Value.text (String.ofList (w ++ s.chars ++ w'))).toMoment? = some m ∧ s.Denotes m) ∧
    (¬ s.InRange → (Value.text (String.ofList (w ++ s.chars ++ w'))).toMoment? = none) := by
  have hne : s.chars ≠ [] := by
    rw [s.chars_eq]
    simp [dateChars, dateText]
  rw [Value.toMoment?, String.toList_ofList,
    trimChars_between hne (fun c hc => s.isBlank_of_mem_chars c (List.mem_of_mem_head? hc))
      (fun c hc => s.isBlank_of_mem_chars c (List.mem_of_mem_getLast? hc)) hw hw']
  exact s.read?_chars

/-- The last second of a leap day, with a seventh digit and an offset without a colon. -/
def leapDayEnd : PlainTimestamp where
  year := ⟨"2024".toList, rfl, List.all_eq_true.1 rfl⟩
  month := ⟨"02".toList, rfl, List.all_eq_true.1 rfl⟩
  day := ⟨"29".toList, rfl, List.all_eq_true.1 rfl⟩
  time := some {
    hour := ⟨"23".toList, rfl, List.all_eq_true.1 rfl⟩
    minute := ⟨"59".toList, rfl, List.all_eq_true.1 rfl⟩
    second := ⟨"59".toList, rfl, List.all_eq_true.1 rfl⟩
    fraction := "1234569".toList
    suffix := .offset true false ⟨"05".toList, rfl, List.all_eq_true.1 rfl⟩
      ⟨"30".toList, rfl, List.all_eq_true.1 rfl⟩ (by decide) (by decide)
    isDigit_of_mem := List.all_eq_true.1 rfl }

/-- The seventh digit is dropped, not rounded. -/
theorem toMoment?_leapDayEnd : leapDayEnd.InRange ∧ ∃ m,
    (Value.text " 2024-02-29T23:59:59.1234569-0530\n").toMoment? = some m ∧
      m.time.microsecond = 123456 ∧
      m.offset.map Offset.microseconds = some (-19800000000) := by
  have hrange : leapDayEnd.InRange := by
    refine ⟨by decide, ?_⟩
    rintro t ⟨⟩
    decide
  have hw : Blanks [' '] := by simp [Blanks, isBlank]
  have hw' : Blanks ['\n'] := by simp [Blanks, isBlank]
  obtain ⟨m, hread, -, htime, hoffset⟩ := (toMoment?_between_blanks leapDayEnd hw hw').1 hrange
  exact ⟨hrange, m, hread, htime.2.2.2, hoffset⟩

end PlainTimestamp
end RecordProjection
