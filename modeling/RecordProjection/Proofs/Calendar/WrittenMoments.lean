import RecordProjection.Proofs.Calendar.Reading
import RecordProjection.Proofs.Number.FixedDecimal

/-!
# Written moments

A date or a moment that was written is read back as it was, and the repairs leave its text alone.
Every offset can be written, but one that is not nought and shorter than a second is read as
universal time; the reader itself never gives such an offset.

## Main definitions

* `Offset.Readable` : an offset that the reader can give.
* `Moment.Readable` : a moment that the reader can give.
-/
namespace RecordProjection

open Text Number

/-- An offset of no length, or of a second at least. -/
def Offset.Readable (o : Offset) : Prop :=
  o.microseconds = 0 ∨ 1000000 ≤ o.microseconds.natAbs

/-- A moment whose offset, if it has one, can be read. -/
def Moment.Readable (m : Moment) : Prop := ∀ o ∈ m.offset, o.Readable

namespace Timestamp

/-! ## The characters of a written moment -/

/-- A character of which written moments are made. -/
def isWritten (c : Char) : Bool :=
  isDigit c || c = '-' || c = ':' || c = 'T' || c = '.' || c = '+'

theorem isWritten_cases {c : Char} (h : isWritten c = true) :
    isDigit c = true ∨ c = '-' ∨ c = ':' ∨ c = 'T' ∨ c = '.' ∨ c = '+' := by
  simpa [isWritten, or_assoc] using h

theorem isWritten_of_isDigit {c : Char} (h : isDigit c = true) : isWritten c = true := by
  simp [isWritten, h]

/-- Written moments are ASCII. -/
theorem toNat_lt_of_isWritten {c : Char} (h : isWritten c = true) : c.toNat < 0x80 := by
  rcases isWritten_cases h with h | rfl | rfl | rfl | rfl | rfl
  · have := toNat_of_isDigit h
    omega
  all_goals decide

theorem isBlank_of_isWritten {c : Char} (h : isWritten c = true) : isBlank c = false := by
  rcases isWritten_cases h with h | rfl | rfl | rfl | rfl | rfl
  · have := toNat_of_isDigit h
    simp only [isBlank, Bool.or_eq_false_iff, Bool.and_eq_false_iff, decide_eq_false_iff_not,
      beq_eq_false_iff_ne]
    omega
  all_goals decide

theorem ne_zulu_of_isWritten {c : Char} (h : isWritten c = true) : c ≠ 'Z' ∧ c ≠ 'z' := by
  refine ⟨?_, ?_⟩ <;> rintro rfl <;> exact absurd h (by decide)

end Timestamp

open Timestamp

section Characters
variable {p : Char → Prop} (hdigit : ∀ c, isDigit c = true → p c)
include hdigit

theorem Number.forall_mem_fixedDecimal (width n : Nat) : ∀ c ∈ fixedDecimal width n, p c :=
  fun c hc => hdigit c (isDigit_of_mem_fixedDecimal hc)

/-- A year, a month and a day with hyphens between them. -/
def Timestamp.dateText (year month day : Nat) : List Char :=
  fixedDecimal 4 year ++ '-' :: fixedDecimal 2 month ++ '-' :: fixedDecimal 2 day

theorem Timestamp.forall_mem_dateText (hminus : p '-') (year month day : Nat) :
    ∀ c ∈ dateText year month day, p c := by
  have hdigits := forall_mem_fixedDecimal hdigit
  simp only [dateText, List.forall_mem_append, List.forall_mem_cons]
  exact ⟨⟨hdigits _ _, hminus, hdigits _ _⟩, hminus, hdigits _ _⟩

omit hdigit in
theorem Date.text_eq (d : Date) : d.text = dateText d.year d.month d.day := rfl

theorem Date.forall_mem_text (hminus : p '-') (d : Date) : ∀ c ∈ d.text, p c :=
  forall_mem_dateText hdigit hminus d.year d.month d.day

/-- Hours, minutes and seconds with colons between them. -/
def Timestamp.secondsText (hour minute second : Nat) : List Char :=
  fixedDecimal 2 hour ++ ':' :: fixedDecimal 2 minute ++ ':' :: fixedDecimal 2 second

theorem Timestamp.forall_mem_secondsText (hcolon : p ':') (hour minute second : Nat) :
    ∀ c ∈ secondsText hour minute second, p c := by
  have hdigits := forall_mem_fixedDecimal hdigit
  simp only [secondsText, List.forall_mem_append, List.forall_mem_cons]
  exact ⟨⟨hdigits _ _, hcolon, hdigits _ _⟩, hcolon, hdigits _ _⟩

/-- Hours, minutes and seconds with colons between them, and the fraction of the seconds. -/
def Timestamp.clockText (hour minute second microsecond : Nat) : List Char :=
  fixedDecimal 2 hour ++ ':' :: fixedDecimal 2 minute ++ ':' :: fixedDecimal 2 second
    ++ TimeOfDay.fractionText microsecond

omit hdigit in
theorem Timestamp.clockText_eq (hour minute second microsecond : Nat) :
    clockText hour minute second microsecond =
      secondsText hour minute second ++ TimeOfDay.fractionText microsecond := rfl

theorem Timestamp.forall_mem_clockText (hcolon : p ':') (hpoint : p '.')
    (hour minute second microsecond : Nat) :
    ∀ c ∈ clockText hour minute second microsecond, p c := by
  have hfraction : ∀ c ∈ TimeOfDay.fractionText microsecond, p c := by
    rw [TimeOfDay.fractionText]
    split
    · simp
    · exact List.forall_mem_cons.2 ⟨hpoint, forall_mem_fixedDecimal hdigit _ _⟩
  rw [clockText_eq, List.forall_mem_append]
  exact ⟨forall_mem_secondsText hdigit hcolon _ _ _, hfraction⟩

end Characters

theorem Date.of?_fields (d : Date) : of? d.year d.month d.day = some d := by
  rw [of?, dif_pos ⟨d.year_bounds, d.month_bounds, d.day_bounds⟩]

theorem TimeOfDay.of?_fields (t : TimeOfDay) :
    of? t.hour t.minute t.second t.microsecond = some t := by
  rw [of?, dif_pos ⟨t.hour_lt, t.minute_lt, t.second_lt, t.microsecond_lt⟩]

theorem TimeOfDay.text_eq (t : TimeOfDay) :
    t.text = clockText t.hour t.minute t.second t.microsecond := rfl

namespace Offset

/-- The sign of an offset. -/
def sign (o : Offset) : Char := if o.microseconds < 0 then '-' else '+'

/-- What stands behind the sign of an offset. -/
def clockText (o : Offset) : List Char :=
  let size := o.microseconds.natAbs
  let seconds := size / 1000000
  if size % 60000000 = 0 then
    fixedDecimal 2 (seconds / 3600) ++ ':' :: fixedDecimal 2 (seconds / 60 % 60)
  else Timestamp.clockText (seconds / 3600) (seconds / 60 % 60) (seconds % 60) (size % 1000000)

theorem text_eq (o : Offset) : o.text = o.sign :: o.clockText := by
  by_cases h : o.microseconds.natAbs % 60000000 = 0
  · have hmicro : o.microseconds.natAbs % 1000000 = 0 := by omega
    simp [text, sign, clockText, h, hmicro, TimeOfDay.fractionText]
  · simp [text, sign, clockText, Timestamp.clockText, h]

theorem sign_eq_or (o : Offset) : o.sign = '-' ∨ o.sign = '+' := by
  rw [sign]
  split <;> simp

theorem eq_utc {o : Offset} (h : o.microseconds = 0) : o = .utc := by
  cases o
  simpa [utc] using h

/-- The sign and the length of an offset give it back. -/
theorem signed_natAbs (o : Offset) :
    (if decide (o.sign = '-') = true then -(o.microseconds.natAbs : Int)
      else o.microseconds.natAbs) = o.microseconds := by
  have hplus : ¬ '+' = '-' := by decide
  by_cases h : o.microseconds < 0
  · have hsize : (o.microseconds.natAbs : Int) = -o.microseconds := by omega
    simp only [sign, if_pos h, hsize, decide_true, if_true, Int.neg_neg]
  · have hsize : (o.microseconds.natAbs : Int) = o.microseconds := by omega
    simp only [sign, if_neg h, hsize, hplus, decide_false, Bool.false_eq_true, if_false]

theorem of?_microseconds (o : Offset) : of? o.microseconds = some o := by
  rw [of?, dif_pos ⟨o.lower, o.upper⟩]

theorem forall_mem_text {p : Char → Prop} (hdigit : ∀ c, isDigit c = true → p c)
    (hminus : p '-') (hplus : p '+') (hcolon : p ':') (hpoint : p '.') (o : Offset) :
    ∀ c ∈ o.text, p c := by
  have hdigits := forall_mem_fixedDecimal hdigit
  have hsign : p o.sign := by
    rcases o.sign_eq_or with h | h <;> rw [h] <;> assumption
  rw [text_eq]
  refine List.forall_mem_cons.2 ⟨hsign, ?_⟩
  rw [clockText]
  split
  · exact List.forall_mem_append.2 ⟨hdigits _ _, List.forall_mem_cons.2 ⟨hcolon, hdigits _ _⟩⟩
  · exact forall_mem_clockText hdigit hcolon hpoint _ _ _ _

/-- What is written of an offset that may be missing. -/
def textD (o : Option Offset) : List Char := (o.map text).getD []

theorem head?_textD {o : Option Offset} {c : Char} (h : c ∈ (textD o).head?) :
    c = '-' ∨ c = '+' := by
  cases o with
  | none => simp [textD] at h
  | some o =>
    obtain rfl : o.sign = c := by simpa [textD, text_eq] using h
    exact o.sign_eq_or

end Offset

theorem Moment.text_eq (m : Moment) :
    m.text = m.date.text ++ 'T' :: (m.time.text ++ Offset.textD m.offset) := by
  simp [text, Offset.textD]

theorem Date.forall_isWritten_text (d : Date) : ∀ c ∈ d.text, isWritten c = true :=
  d.forall_mem_text (fun _ => isWritten_of_isDigit) (by decide)

theorem Moment.forall_isWritten_text (m : Moment) : ∀ c ∈ m.text, isWritten c = true := by
  have hdigit (c : Char) (hc : isDigit c = true) : isWritten c = true := isWritten_of_isDigit hc
  rw [text_eq]
  simp only [List.forall_mem_append, List.forall_mem_cons]
  refine ⟨m.date.forall_isWritten_text, by decide,
    forall_mem_clockText hdigit (by decide) (by decide) _ _ _ _, ?_⟩
  cases m.offset with
  | none => simp [Offset.textD]
  | some o => exact o.forall_mem_text hdigit (by decide) (by decide) (by decide) (by decide)

/-! ## Clocks -/

namespace Timestamp

section Fields
variable {n count room : Nat} (hn : n < 100)
include hn

theorem readDigits_two (r : List Char) : readDigits 2 0 (fixedDecimal 2 n ++ r) = some (n, r) :=
  readDigits_fixedDecimal hn r

/-- The last field of a clock. -/
theorem readFields?_last (hroom : room ≤ 3) (colons : Option Bool) (r : List Char) :
    readFields? (count + 1) colons room (fixedDecimal 2 n ++ r) =
      some ⟨[n], 0, front r ≠ '\x00'⟩ := by
  simp [readFields?, readDigits_two hn, hroom]

/-- A field that a colon follows. -/
theorem readFields?_colon (hroom : 3 < room) {colons : Option Bool} (hcolons : colons ≠ some false)
    (r : List Char) : readFields? (count + 1) colons room (fixedDecimal 2 n ++ ':' :: r) =
      (readFields? count (some true) (room - 3) r).map
        fun c => { c with fields := n :: c.fields } := by
  have htrue : colons.getD true = true := by
    rcases colons with _ | _ | _ <;> simp_all
  have hroom' : ¬ room ≤ 3 := by omega
  simp only [readFields?, readDigits_two hn, Option.bind_eq_bind, Option.bind_some, hroom',
    if_false, front, List.headD_cons, htrue, decide_true, Bool.and_self, if_true, List.tail_cons,
    Option.map_eq_bind]
  rfl

/-- A field that a point and a fraction follow. -/
theorem readFields?_point (hroom : 3 < room) (r : List Char) :
    readFields? (count + 1) (some true) room (fixedDecimal 2 n ++ '.' :: r) =
      (readFraction? (room - 3) r).map fun c => { c with fields := n :: c.fields } := by
  have hroom' : ¬ room ≤ 3 := by omega
  have hcolon : ¬ '.' = ':' := by decide
  simp only [readFields?, readDigits_two hn, Option.bind_eq_bind, Option.bind_some, hroom',
    if_false, front, List.headD_cons, hcolon, decide_true, decide_false, Bool.and_false,
    Bool.false_eq_true, Bool.true_or, if_true, List.tail_cons, Option.map_eq_bind]
  rfl

end Fields

/-- Six digits of a fraction. -/
theorem readFraction?_fixedDecimal {n : Nat} (hn : n < 1000000) {r : List Char}
    (hr : EndsDigits r) :
    readFraction? 6 (fixedDecimal 6 n ++ r) = some ⟨[], n, front r ≠ '\x00'⟩ := by
  have hread : readDigits 6 0 (fixedDecimal 6 n ++ r) = some (n, r) := readDigits_fixedDecimal hn r
  simp [readFraction?, hread, hr.dropWhile_eq, tenPow]

@[simp] theorem length_secondsText (hour minute second : Nat) :
    (secondsText hour minute second).length = 8 := by
  simp [secondsText]

section Seconds
variable {hour minute second : Nat} (hhour : hour < 100) (hminute : minute < 100)
  (hsecond : second < 100)
include hhour hminute hsecond

/-- A clock without a fraction, and what stands behind it is looked at. -/
theorem readClock?_seconds (r : List Char) : readClock? 8 (secondsText hour minute second ++ r) =
    some ⟨[hour, minute, second], 0, front r ≠ '\x00'⟩ := by
  rw [readClock?]
  simp only [secondsText, List.append_assoc, List.cons_append]
  rw [readFields?_colon hhour (by omega) (by simp),
    readFields?_colon hminute (by omega) (by simp), readFields?_last hsecond (by omega)]
  rfl

/-- A clock with six digits of a fraction. -/
theorem readClock?_fraction {microsecond : Nat} (hmicro : microsecond < 1000000) {r : List Char}
    (hr : EndsDigits r) :
    readClock? 15 (secondsText hour minute second ++ '.' :: (fixedDecimal 6 microsecond ++ r)) =
      some ⟨[hour, minute, second], microsecond, front r ≠ '\x00'⟩ := by
  rw [readClock?]
  simp only [secondsText, List.append_assoc, List.cons_append]
  rw [readFields?_colon hhour (by omega) (by simp),
    readFields?_colon hminute (by omega) (by simp), readFields?_point hsecond (by omega),
    readFraction?_fixedDecimal hmicro hr]
  rfl

/-- A clock that was written is read, and what stands behind it is looked at. -/
theorem readClock?_clockText {microsecond : Nat} (hmicro : microsecond < 1000000)
    {r : List Char} (hr : EndsDigits r) :
    readClock? (clockText hour minute second microsecond).length
      (clockText hour minute second microsecond ++ r) =
      some ⟨[hour, minute, second], microsecond, front r ≠ '\x00'⟩ := by
  rw [clockText_eq, TimeOfDay.fractionText]
  split
  · next hzero =>
    subst hzero
    simpa using readClock?_seconds hhour hminute hsecond r
  · simpa using readClock?_fraction hhour hminute hsecond hmicro hr

end Seconds

/-- Hours and minutes alone. -/
theorem readClock?_two {hour minute : Nat} (hhour : hour < 100) (hminute : minute < 100) :
    readClock? 5 (fixedDecimal 2 hour ++ ':' :: fixedDecimal 2 minute) =
      some ⟨[hour, minute], 0, false⟩ := by
  have hlast : readFields? 2 (some true) 2 (fixedDecimal 2 minute) = some ⟨[minute], 0, false⟩ := by
    have hroom : 2 ≤ 3 := by omega
    simpa [front] using @readFields?_last minute 1 2 hminute hroom (some true) []
  rw [readClock?, readFields?_colon hhour (by omega) (by simp), hlast]
  rfl

/-- Hours and minutes alone, with nothing between them. -/
theorem readClock?_pair {hour minute : Nat} (hhour : hour < 100) (hminute : minute < 100) :
    readClock? 4 (fixedDecimal 2 hour ++ fixedDecimal 2 minute) =
      some ⟨[hour, minute], 0, false⟩ := by
  have hlast : readFields? 2 (some false) 2 (fixedDecimal 2 minute) =
      some ⟨[minute], 0, false⟩ := by
    have hroom : 2 ≤ 3 := by omega
    simpa [front] using @readFields?_last minute 1 2 hminute hroom (some false) []
  obtain ⟨c, r, hc, hdigit⟩ :
      ∃ c r, fixedDecimal 2 minute = c :: r ∧ isDigit c = true :=
    ⟨_, _, rfl, isDigit_digitChar (Nat.mod_lt (minute / 10) (by omega))⟩
  have hmark : c ≠ ':' ∧ c ≠ '.' ∧ c ≠ ',' := by
    refine ⟨?_, ?_, ?_⟩ <;> rintro rfl <;> exact absurd hdigit (by decide)
  rw [hc] at hlast
  rw [readClock?, readFields?, readDigits_two hhour, hc]
  simp [front, hmark, hlast]

/-! ## Offsets -/

/-- What stands behind the sign of an offset is read as the length of the offset. -/
theorem readClock?_offset (o : Offset) : ∃ clock : Clock,
    readClock? o.clockText.length o.clockText = some clock ∧ clock.overrun = false ∧
    clock.seconds = o.microseconds.natAbs / 1000000 ∧
    clock.microsecond = o.microseconds.natAbs % 1000000 := by
  obtain ⟨n, hn⟩ : ∃ n, n = o.microseconds.natAbs := ⟨_, rfl⟩
  have hday : n < 86400000000 := by
    have hlower := o.lower
    have hupper := o.upper
    rw [dayLength] at hlower hupper
    omega
  rw [Offset.clockText, ← hn]
  by_cases hminutes : n % 60000000 = 0
  · refine ⟨⟨[n / 1000000 / 3600, n / 1000000 / 60 % 60], 0, false⟩, ?_, rfl, ?_, ?_⟩
    · simp only [hminutes, if_true]
      exact readClock?_two (by omega) (by omega)
    · simp only [Clock.seconds, Clock.hour, Clock.minute, Clock.second, List.getD_cons_zero,
        List.getD_cons_succ, List.getD_nil]
      omega
    · show 0 = n % 1000000
      omega
  · refine ⟨⟨[n / 1000000 / 3600, n / 1000000 / 60 % 60, n / 1000000 % 60], n % 1000000, false⟩,
      ?_, rfl, ?_, rfl⟩
    · have hhour : n / 1000000 / 3600 < 100 := by omega
      have hminute : n / 1000000 / 60 % 60 < 100 := by omega
      have hsecond : n / 1000000 % 60 < 100 := by omega
      have hmicro : n % 1000000 < 1000000 := by omega
      have hend : EndsDigits [] := by simp [EndsDigits]
      simp only [hminutes, if_false]
      simpa [front] using readClock?_clockText hhour hminute hsecond hmicro hend
    · simp only [Clock.seconds, Clock.hour, Clock.minute, Clock.second, List.getD_cons_zero,
        List.getD_cons_succ]
      omega

/-- An offset that can be read is read back. -/
theorem readOffset?_clockText {o : Offset} (ho : o.Readable) :
    readOffset? (o.sign = '-') o.clockText = some o := by
  obtain ⟨clock, hclock, hoverrun, hseconds, hmicro⟩ := readClock?_offset o
  simp only [readOffset?, hclock, Option.bind_eq_bind, Option.bind_some, hoverrun, hseconds, hmicro]
  rw [if_neg Bool.false_ne_true]
  rcases ho with hzero | hsecond
  · have hseconds : o.microseconds.natAbs / 1000000 = 0 := by omega
    rw [if_pos hseconds, Offset.eq_utc hzero]
  · have hseconds : o.microseconds.natAbs / 1000000 ≠ 0 := by omega
    have hsize : (↑(o.microseconds.natAbs / 1000000) * 1000000 +
      ↑(o.microseconds.natAbs % 1000000) : Int) = o.microseconds.natAbs := by omega
    rw [if_neg hseconds, hsize, o.signed_natAbs, o.of?_microseconds]

/-! ## Times -/

theorem endsDigits_textD (o : Option Offset) : EndsDigits (Offset.textD o) := by
  intro c hc
  rcases Offset.head?_textD hc with rfl | rfl <;> rfl

theorem startsOffset_of_isDigit {c : Char} (h : isDigit c = true) : startsOffset c = false := by
  rw [startsOffset]
  simp only [Bool.or_eq_false_iff, decide_eq_false_iff_not]
  refine ⟨⟨?_, ?_⟩, ?_⟩ <;> rintro rfl <;> exact absurd h (by decide)

theorem startsOffset_of_mem_clockText {hour minute second microsecond : Nat} :
    ∀ c ∈ clockText hour minute second microsecond, startsOffset c = false :=
  forall_mem_clockText (fun _ => startsOffset_of_isDigit) rfl rfl _ _ _ _

theorem startsOffset_head?_textD (o : Option Offset) :
    ∀ c ∈ (Offset.textD o).head?, startsOffset c = true := by
  intro c hc
  rcases Offset.head?_textD hc with rfl | rfl <;> rfl

/-- An offset that was written is read behind a clock of which nothing is left. -/
theorem readZone?_textD {o : Option Offset} (ho : ∀ p ∈ o, p.Readable) :
    readZone? (front (Offset.textD o) ≠ '\x00') (Offset.textD o) = some o := by
  cases o with
  | none => rfl
  | some o =>
    have hoffset := readOffset?_clockText (ho o rfl)
    have htext : Offset.textD (some o) = o.sign :: o.clockText := o.text_eq
    rw [htext]
    rcases o.sign_eq_or with hsign | hsign
    · rw [hsign] at hoffset ⊢
      show (readOffset? (decide ('-' = '-')) o.clockText).map some = _
      rw [hoffset]
      rfl
    · rw [hsign] at hoffset ⊢
      show (readOffset? (decide ('+' = '-')) o.clockText).map some = _
      rw [hoffset]
      rfl

/-- A time that was written is read back with its offset. -/
theorem readTime?_text (t : TimeOfDay) {o : Option Offset} (ho : ∀ p ∈ o, p.Readable) :
    readTime? (t.text ++ Offset.textD o) = some (t, o) := by
  have hhour : t.hour < 100 := Nat.lt_of_lt_of_le t.hour_lt (by decide)
  have hminute : t.minute < 100 := Nat.lt_of_lt_of_le t.minute_lt (by decide)
  have hsecond : t.second < 100 := Nat.lt_of_lt_of_le t.second_lt (by decide)
  have hclock := readClock?_clockText hhour hminute hsecond t.microsecond_lt (endsDigits_textD o)
  rw [t.text_eq, readTime?_append startsOffset_of_mem_clockText (startsOffset_head?_textD o),
    hclock, Option.bind_some, readZone?_textD ho, Option.bind_some]
  exact congrArg (Option.map fun time => (time, o)) t.of?_fields

/-! ## Dates -/

/-- Numbers of a calendar date fit their digits. -/
theorem day_lt (d : Date) : d.day < 100 := by
  have hday := d.day_bounds.2
  have hmonth : daysInMonth d.year d.month ≤ 31 := by
    rw [daysInMonth]
    split
    · split <;> omega
    · split <;> omega
  omega

@[simp] theorem length_dateText (year month day : Nat) :
    (dateText year month day).length = 10 := by
  simp [dateText]

/-- A month begins with a digit, so a date with hyphens is no week date. -/
theorem digitChar_tens_ne (n : Nat) : digitChar (n / 10 % 10) ≠ 'W' := by
  intro h
  have hdigit := isDigit_digitChar (Nat.mod_lt (n / 10) (show 0 < 10 by omega))
  rw [h] at hdigit
  exact absurd hdigit (by decide)

/-- A date with hyphens is read as the day that has these numbers. -/
theorem readDate?_dateText {year month day : Nat} (hyear : year < 10000) (hmonth : month < 100)
    (hday : day < 100) (r : List Char) :
    readDate? 10 (dateText year month day ++ r) = Date.of? year month day := by
  have hmonthDay : readMonthDay? true year 5 10
      (fixedDecimal 2 month ++ '-' :: (fixedDecimal 2 day ++ r)) = Date.of? year month day := by
    simp only [readMonthDay?, readDigits_two hmonth, readDigits_two hday, readDash?,
      Option.bind_eq_bind, Option.bind_some]
    rw [if_pos (by simp)]
  have hyear' : year < tenPow 4 := hyear
  have hs : fixedDecimal 2 month = [digitChar (month / 10 % 10), digitChar (month % 10)] := rfl
  rw [hs, List.cons_append] at hmonthDay
  simp only [dateText, List.append_assoc, List.cons_append, readDate?,
    readDigits_fixedDecimal hyear', Option.bind_eq_bind, Option.bind_some, hs]
  split
  · next heq => exact absurd (List.cons.inj heq).1 (digitChar_tens_ne month)
  · exact hmonthDay

/-- A date with hyphens is ten octets wide. -/
theorem dateWidth?_dateText (year month day : Nat) (r : List Char) :
    dateWidth? (dateText year month day ++ r) = some 10 := by
  have hlength : (dateText year month day ++ r).length ≠ 7 := by
    rw [List.length_append, length_dateText]
    omega
  rw [dateWidth?, if_neg hlength]
  simp [dateText, fixedDecimal, digitChar_tens_ne]

/-! ## Whole moments -/

theorem isWritten_of_mem_dateText {year month day : Nat} :
    ∀ c ∈ dateText year month day, isWritten c = true :=
  forall_mem_dateText (fun _ => isWritten_of_isDigit) rfl _ _ _

theorem octets_of_isWritten {cs : List Char} (h : ∀ c ∈ cs, isWritten c = true) :
    octets cs = cs :=
  octets_of_ascii fun c hc => toNat_lt_of_isWritten (h c hc)

theorem dropSeparator_time (r : List Char) : dropSeparator ('T' :: r) = r := by
  have hascii : (front ('T' :: r)).toNat < 0x80 := by
    show 'T'.toNat < 0x80
    decide
  rw [dropSeparator]
  simp only [hascii, if_true, List.drop_one, List.tail_cons]

section WholeMoments
variable {year month day : Nat} (hyear : year < 10000) (hmonth : month < 100) (hday : day < 100)
include hyear hmonth hday

/-- A date alone is read as its start. -/
theorem readExact?_dateText :
    readExact? (dateText year month day) = (Date.of? year month day).map .ofDate := by
  have hwidth : dateWidth? (dateText year month day) = some 10 := by
    simpa using dateWidth?_dateText year month day []
  have hdate : readDate? 10 (dateText year month day) = Date.of? year month day := by
    simpa using readDate?_dateText hyear hmonth hday []
  have hread : readExact? (dateText year month day) =
      (Date.of? year month day).bind fun date => some (.ofDate date) := by
    simp [readExact?, octets_of_isWritten isWritten_of_mem_dateText, hwidth, hdate]
  exact hread.trans Option.map_eq_bind.symm

/-- A date and a time are read one after the other. -/
theorem readExact?_dateText_append {z : List Char} (hz : ∀ c ∈ z, isWritten c = true) :
    readExact? (dateText year month day ++ 'T' :: z) =
      (Date.of? year month day).bind fun date =>
        (readTime? z).map fun time => ⟨date, time.1, time.2⟩ := by
  have hwritten : ∀ c ∈ dateText year month day ++ 'T' :: z, isWritten c = true :=
    List.forall_mem_append.2 ⟨isWritten_of_mem_dateText, List.forall_mem_cons.2 ⟨rfl, hz⟩⟩
  have hbehind : (dateText year month day ++ 'T' :: z).drop 10 = 'T' :: z :=
    List.drop_left' (length_dateText year month day)
  have hlong : 10 < (dateText year month day ++ 'T' :: z).length := by simp
  rw [readExact?, if_neg (by omega)]
  simp only [octets_of_isWritten hwritten, dateWidth?_dateText,
    readDate?_dateText hyear hmonth hday, hbehind, dropSeparator_time, Nat.not_le.2 hlong, if_false,
    Option.bind_eq_bind, Option.bind_some, Option.map_eq_bind]
  rfl

end WholeMoments

theorem readExact?_date (d : Date) : readExact? d.text = some (.ofDate d) := by
  have hyear := d.year_bounds.2
  have hmonth := d.month_bounds.2
  rw [d.text_eq, readExact?_dateText (by omega) (by omega) (day_lt d), d.of?_fields]
  rfl

theorem readExact?_text {m : Moment} (hm : m.Readable) : readExact? m.text = some m := by
  have hyear := m.date.year_bounds.2
  have hmonth := m.date.month_bounds.2
  have htime : ∀ c ∈ m.time.text ++ Offset.textD m.offset, isWritten c = true := by
    have h := m.forall_isWritten_text
    rw [m.text_eq, List.forall_mem_append, List.forall_mem_cons] at h
    exact h.2.2
  rw [m.text_eq, m.date.text_eq, readExact?_dateText_append (by omega) (by omega) (day_lt m.date)
    htime, readTime?_text m.time hm, m.date.of?_fields]
  rfl

/-! ## Repairs -/

/-- A text without a final letter has none to expand. -/
theorem expandZulu_eq_self {cs : List Char} (h : ∀ c ∈ cs.getLast?, c ≠ 'Z' ∧ c ≠ 'z') :
    expandZulu cs = cs := by
  rw [expandZulu.eq_def]
  split
  · next c hc =>
    obtain ⟨hupper, hlower⟩ := h c hc
    simp [hupper, hlower]
  · rfl

theorem expandZulu_of_isWritten {cs : List Char} (h : ∀ c ∈ cs, isWritten c = true) :
    expandZulu cs = cs :=
  expandZulu_eq_self fun c hc => ne_zulu_of_isWritten (h c (List.mem_of_getLast? hc))

/-- Nothing is normalized before a `T`. -/
theorem normalizedTime?_cons {c : Char} (hc : c ≠ 'T') (cs : List Char) :
    normalizedTime? (c :: cs) = none := by
  have htime : isTimeBeforePoint ((c :: cs).take 10) = false := by
    rw [List.take_succ_cons, isTimeBeforePoint.eq_def]
    split
    · next heq => exact absurd (List.cons.inj heq).1 hc
    · rfl
  rw [normalizedTime?, htime, if_neg Bool.false_ne_true]

theorem normalizeFraction_append {cs : List Char} (h : 'T' ∉ cs) (r : List Char) :
    normalizeFraction (cs ++ r) = cs ++ normalizeFraction r := by
  induction cs with
  | nil => rfl
  | cons c cs ih =>
    rw [List.mem_cons, not_or] at h
    rw [List.cons_append, normalizeFraction, normalizedTime?_cons (Ne.symm h.1), ih h.2]
    rfl

theorem normalizeFraction_eq_self {cs : List Char} (h : 'T' ∉ cs) : normalizeFraction cs = cs := by
  simpa [normalizeFraction] using normalizeFraction_append h []

/-- A fraction of six digits is normalized to itself. -/
theorem eq_of_normalizedTime? {cs t : List Char} (h : normalizedTime? cs = some t)
    (hsix : ((cs.drop 10).takeWhile isDecimalDigit).length = 6) : t = cs := by
  rw [normalizedTime?] at h
  split at h
  · simp only at h
    split at h
    · obtain rfl := Option.some.inj h
      rw [hsix, List.take_of_length_le (Nat.le_of_eq hsix), Nat.sub_self, List.replicate_zero,
        List.append_nil, List.append_assoc, List.takeWhile_append_dropWhile,
        List.take_append_drop]
    · cases h
  · cases h

theorem isDecimalDigit_of_sign {c : Char} (h : c = '-' ∨ c = '+') : isDecimalDigit c = false := by
  rcases h with rfl | rfl <;> decide

/-- The fraction of a written time ends where its offset begins. -/
theorem takeWhile_fixedDecimal_append (n : Nat) (o : Option Offset) :
    (fixedDecimal 6 n ++ Offset.textD o).takeWhile isDecimalDigit = fixedDecimal 6 n := by
  have hdigits : ∀ c ∈ fixedDecimal 6 n, isDecimalDigit c = true :=
    fun c hc => isDecimalDigit_of_isDigit (isDigit_of_mem_fixedDecimal hc)
  rw [List.takeWhile_append_of_pos hdigits]
  cases ho : Offset.textD o with
  | nil => simp
  | cons c r =>
    have hc := isDecimalDigit_of_sign (Offset.head?_textD (o := o) (c := c) (by simp [ho]))
    rw [List.takeWhile_cons_of_neg (by simp [hc]), List.append_nil]

/-- A written time is normalized to itself, if at all. -/
theorem eq_of_normalizedTime?_text {t : TimeOfDay} {o : Option Offset} {cs : List Char}
    (h : normalizedTime? ('T' :: (t.text ++ Offset.textD o)) = some cs) :
    cs = 'T' :: (t.text ++ Offset.textD o) := by
  by_cases hzero : t.microsecond = 0
  · -- without a fraction no point stands behind the seconds
    have htime : isTimeBeforePoint (('T' :: (t.text ++ Offset.textD o)).take 10) = false := by
      rw [t.text_eq, clockText, TimeOfDay.fractionText, if_pos hzero]
      cases ho : Offset.textD o with
      | nil => simp [fixedDecimal, isTimeBeforePoint]
      | cons c r =>
        have hc : c ≠ '.' := by
          have := Offset.head?_textD (o := o) (c := c) (by simp [ho])
          rcases this with rfl | rfl <;> decide
        simp [fixedDecimal, isTimeBeforePoint, hc]
    rw [normalizedTime?, htime, if_neg Bool.false_ne_true] at h
    cases h
  · refine eq_of_normalizedTime? h ?_
    have hfraction : ('T' :: (t.text ++ Offset.textD o)).drop 10 =
        fixedDecimal 6 t.microsecond ++ Offset.textD o := by
      simp [t.text_eq, clockText, TimeOfDay.fractionText, hzero, fixedDecimal]
    rw [hfraction, takeWhile_fixedDecimal_append, length_fixedDecimal]

theorem ne_T_of_isDigit {c : Char} (h : isDigit c = true) : c ≠ 'T' := by
  rintro rfl
  exact absurd h (by decide)

theorem T_notMem_date (d : Date) : 'T' ∉ d.text := by
  intro h
  exact d.forall_mem_text (fun _ => ne_T_of_isDigit) (by decide) _ h rfl

theorem T_notMem_time (t : TimeOfDay) (o : Option Offset) : 'T' ∉ t.text ++ Offset.textD o := by
  intro h
  rcases List.mem_append.1 h with h | h
  · exact forall_mem_clockText (fun _ => ne_T_of_isDigit) (by decide) (by decide) _ _ _ _ _ h rfl
  · cases o with
    | none => simp [Offset.textD] at h
    | some o =>
      exact o.forall_mem_text (fun _ => ne_T_of_isDigit) (by decide) (by decide) (by decide)
        (by decide) _ h rfl

/-- The repairs leave a written moment alone. -/
theorem normalizeFraction_text (m : Moment) : normalizeFraction m.text = m.text := by
  rw [m.text_eq, normalizeFraction_append (T_notMem_date m.date), normalizeFraction,
    normalizeFraction_eq_self (T_notMem_time m.time m.offset)]
  cases h : normalizedTime? ('T' :: (m.time.text ++ Offset.textD m.offset)) with
  | none => rfl
  | some cs => rw [eq_of_normalizedTime?_text h, Option.getD_some]

theorem read?_text {m : Moment} (hm : m.Readable) : read? m.text = some m := by
  rw [read?, expandZulu_of_isWritten m.forall_isWritten_text, normalizeFraction_text,
    readExact?_text hm]

theorem read?_date (d : Date) : read? d.text = some (.ofDate d) := by
  rw [read?, expandZulu_of_isWritten d.forall_isWritten_text,
    normalizeFraction_eq_self (T_notMem_date d), readExact?_date]

/-! ## What the reader gives -/

theorem microseconds_of_of? {n : Int} {o : Offset} (h : Offset.of? n = some o) :
    o.microseconds = n := by
  rw [Offset.of?] at h
  split at h
  · rw [← Option.some.inj h]
  · cases h

theorem readable_of_readOffset? {negative : Bool} {s : List Char} {o : Offset}
    (h : readOffset? negative s = some o) : o.Readable := by
  obtain ⟨clock, -, h⟩ := Option.bind_eq_some_iff.1 h
  split at h
  · cases h
  split at h
  · rw [← Option.some.inj h]
    exact .inl rfl
  next hseconds =>
    have hn := microseconds_of_of? h
    refine .inr ?_
    split at hn <;> omega

theorem readable_of_readTime? {s : List Char} {t : TimeOfDay} {o : Option Offset}
    (h : readTime? s = some (t, o)) : ∀ p ∈ o, p.Readable := by
  obtain ⟨clock, -, h⟩ := Option.bind_eq_some_iff.1 h
  have hlast {offset : Option Offset} (h : ((TimeOfDay.of? clock.hour clock.minute clock.second
      clock.microsecond).bind fun time => some (time, offset)) = some (t, o)) : offset = o := by
    obtain ⟨time, -, h⟩ := Option.bind_eq_some_iff.1 h
    exact (Prod.mk.inj (Option.some.inj h)).2
  dsimp only at h
  split at h
  · split at h
    · cases h
    · obtain rfl := hlast h
      simp
  · split at h
    · obtain rfl := hlast h
      rintro _ ⟨⟩
      exact .inl rfl
    · cases h
  · obtain ⟨offset, hoffset, h⟩ := Option.bind_eq_some_iff.1 h
    obtain rfl := hlast h
    obtain ⟨p, hp, rfl⟩ := Option.map_eq_some_iff.1 hoffset
    rintro _ ⟨⟩
    exact readable_of_readOffset? hp

/-- The reader gives no moment that it could not read again. -/
theorem readable_of_readExact? {cs : List Char} {m : Moment} (h : readExact? cs = some m) :
    m.Readable := by
  rw [readExact?] at h
  split at h
  · cases h
  obtain ⟨width, -, h⟩ := Option.bind_eq_some_iff.1 h
  obtain ⟨date, -, h⟩ := Option.bind_eq_some_iff.1 h
  split at h
  · rw [← Option.some.inj h]
    rintro _ ⟨⟩
  obtain ⟨⟨time, offset⟩, htime, h⟩ := Option.bind_eq_some_iff.1 h
  rw [← Option.some.inj h]
  exact readable_of_readTime? htime

end Timestamp
end RecordProjection
