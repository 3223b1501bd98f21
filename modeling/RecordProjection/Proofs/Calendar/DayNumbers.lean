import Mathlib.Tactic.SplitIfs
import RecordProjection.Proofs.Calendar.UniversalDates

/-!
# Numbers of days

The number of a day counts the days of the calendar: the first has the number 1, and the day after
another has the next number. So days come in the order of their numbers, and every number up to that
of the last day is the number of a day.

The date of a moment in universal time is the day whose number is the whole number of days in its
instant. It depends on the instant alone, and a later instant never gives an earlier date.

## Main definitions

* `Date.Before` : a day comes before another one.
* `Moment.elapsed` : how much time lies behind a date and time, whatever its offset.
* `Moment.instant` : how much time lies behind a moment in universal time.
* `Moment.universalDay` : the number of the day that a moment falls on in universal time.
* `Date.IsNumber` : the numbers of the days of the calendar.
-/
namespace RecordProjection

/-! ## Years and months -/

namespace Date

theorem daysBeforeYear_succ (year : Nat) (h : 1 ≤ year) :
    daysBeforeYear (year + 1) = daysBeforeYear year + daysInYear year := by
  obtain ⟨n, rfl⟩ := Nat.exists_eq_add_of_le' h
  have hfour := @Nat.succ_div n 4
  have hhundred := @Nat.succ_div n 100
  have hfourHundred := @Nat.succ_div n 400
  have hle : n / 100 ≤ n / 4 := Nat.div_le_div_left (by decide) (by decide)
  rw [daysBeforeYear, daysBeforeYear, Nat.add_sub_cancel, Nat.add_sub_cancel, hfour, hhundred,
    hfourHundred, daysInYear, isLeapYear]
  generalize n / 4 = fours at hle ⊢
  generalize n / 100 = hundreds at hle ⊢
  simp only [Nat.dvd_iff_mod_eq_zero, Bool.and_eq_true, Bool.or_eq_true, beq_iff_eq, bne_iff_ne]
  split_ifs <;> omega

theorem daysBeforeMonth_succ (year month : Nat) (h : 1 ≤ month) :
    daysBeforeMonth year (month + 1) = daysBeforeMonth year month + daysInMonth year month := by
  cases month with
  | zero => omega
  | succ month => rfl

/-- The months of a year take up the whole of it. -/
theorem daysBeforeMonth_thirteen (year : Nat) : daysBeforeMonth year 13 = daysInYear year := by
  have hsum : daysBeforeMonth year 13 = 337 + daysInMonth year 2 := by
    simp [daysBeforeMonth, daysInMonth]
    omega
  rw [hsum, daysInMonth, if_pos rfl, daysInYear]
  split <;> rfl

theorem daysBeforeYear_le {year later : Nat} (hyear : 1 ≤ year) (h : year ≤ later) :
    daysBeforeYear year ≤ daysBeforeYear later := by
  obtain ⟨more, rfl⟩ := Nat.exists_eq_add_of_le h
  induction more with
  | zero => exact Nat.le_refl _
  | succ more ih =>
    have hsucc := daysBeforeYear_succ (year + more) (by omega)
    have hmore := ih (by omega)
    rw [← Nat.add_assoc]
    omega

theorem daysBeforeMonth_le (year : Nat) {month later : Nat} (hmonth : 1 ≤ month)
    (h : month ≤ later) : daysBeforeMonth year month ≤ daysBeforeMonth year later := by
  obtain ⟨more, rfl⟩ := Nat.exists_eq_add_of_le h
  induction more with
  | zero => exact Nat.le_refl _
  | succ more ih =>
    have hsucc := daysBeforeMonth_succ year (month + more) (by omega)
    have hmore := ih (by omega)
    rw [← Nat.add_assoc]
    omega

/-- A day lies before the end of its month. -/
theorem dayOfYear_le_month (d : Date) :
    daysBeforeMonth d.year d.month + d.day ≤ daysBeforeMonth d.year (d.month + 1) := by
  have hsucc := daysBeforeMonth_succ d.year d.month d.month_bounds.1
  have hday := d.day_bounds.2
  omega

/-- A day lies before the end of its year. -/
theorem dayNumber_le_year (d : Date) : d.dayNumber ≤ daysBeforeYear (d.year + 1) := by
  have hmonth := d.month_bounds
  have hlater : daysBeforeMonth d.year (d.month + 1) ≤ daysBeforeMonth d.year 13 :=
    daysBeforeMonth_le d.year (by omega) (by omega)
  have hyear := daysBeforeYear_succ d.year d.year_bounds.1
  have hday := d.dayOfYear_le_month
  rw [daysBeforeMonth_thirteen] at hlater
  rw [dayNumber]
  omega

/-! ## The order of days -/

/-- A day comes before another one: in an earlier year, or in an earlier month of the same year, or
on an earlier day of the same month. -/
def Before (d e : Date) : Prop :=
  d.year < e.year ∨ d.year = e.year ∧ (d.month < e.month ∨ d.month = e.month ∧ d.day < e.day)

theorem eq_or_before (d e : Date) : d = e ∨ d.Before e ∨ e.Before d := by
  rw [eq_iff, Before, Before]
  omega

theorem dayNumber_lt_of_before {d e : Date} (h : d.Before e) : d.dayNumber < e.dayNumber := by
  have hday := e.day_bounds.1
  rcases h with hyear | ⟨hyear, hmonth | ⟨hmonth, hday'⟩⟩
  · have hend := d.dayNumber_le_year
    have hle := daysBeforeYear_le (by omega) (Nat.succ_le_of_lt hyear)
    rw [Nat.succ_eq_add_one] at hle
    rw [dayNumber.eq_def e]
    omega
  · have hend := d.dayOfYear_le_month
    have hle := daysBeforeMonth_le d.year (by omega) (Nat.succ_le_of_lt hmonth)
    rw [Nat.succ_eq_add_one] at hle
    rw [dayNumber, dayNumber, ← hyear]
    omega
  · rw [dayNumber, dayNumber, ← hyear, ← hmonth]
    omega

/-- Days come in the order of their numbers. -/
theorem dayNumber_lt_iff {d e : Date} : d.dayNumber < e.dayNumber ↔ d.Before e := by
  refine ⟨fun h => ?_, dayNumber_lt_of_before⟩
  rcases eq_or_before d e with rfl | hbefore | hbehind
  · exact absurd h (Nat.lt_irrefl _)
  · exact hbefore
  · exact absurd (dayNumber_lt_of_before hbehind) (by omega)

/-- No two days have the same number. -/
theorem dayNumber_inj {d e : Date} : d.dayNumber = e.dayNumber ↔ d = e := by
  refine ⟨fun h => ?_, fun h => h ▸ rfl⟩
  rcases eq_or_before d e with heq | hbefore | hbehind
  · exact heq
  · exact absurd (dayNumber_lt_of_before hbefore) (by omega)
  · exact absurd (dayNumber_lt_of_before hbehind) (by omega)

/-! ## Neighbouring days -/

theorem of?_eq_some_iff {year month day : Nat} {d : Date} :
    of? year month day = some d ↔ d.year = year ∧ d.month = month ∧ d.day = day := by
  constructor
  · intro h
    rw [of?] at h
    split at h
    · rw [← Option.some.inj h]
      exact ⟨rfl, rfl, rfl⟩
    · cases h
  · rintro ⟨rfl, rfl, rfl⟩
    rw [of?, dif_pos ⟨d.year_bounds, d.month_bounds, d.day_bounds⟩]

/-- The day after has the next number. -/
theorem dayNumber_of_next? {d e : Date} (h : d.next? = some e) :
    e.dayNumber = d.dayNumber + 1 := by
  have hmonths := daysBeforeMonth_succ d.year d.month d.month_bounds.1
  have hyears := daysBeforeYear_succ d.year d.year_bounds.1
  have hday := d.day_bounds.2
  have hmonth := d.month_bounds.2
  rw [next?] at h
  rw [dayNumber, dayNumber]
  split at h
  · obtain ⟨hyear', hmonth', hday'⟩ := of?_eq_some_iff.1 h
    rw [hyear', hmonth', hday']
    omega
  split at h
  · obtain ⟨hyear', hmonth', hday'⟩ := of?_eq_some_iff.1 h
    rw [hyear', hmonth', hday']
    omega
  next hday'' hmonth'' =>
    obtain ⟨hyear', hmonth', hday'⟩ := of?_eq_some_iff.1 h
    have hlast : d.month + 1 = 13 := by omega
    have hend := daysBeforeMonth_thirteen d.year
    have hfirst : daysBeforeMonth (d.year + 1) 1 = 0 := rfl
    rw [← hlast] at hend
    rw [hyear', hmonth', hday', hfirst]
    omega

/-- The day before has the number before. -/
theorem dayNumber_of_previous? {d e : Date} (h : d.previous? = some e) :
    e.dayNumber + 1 = d.dayNumber := by
  have hday := d.day_bounds.1
  have hmonth := d.month_bounds.1
  have hyear := d.year_bounds.1
  rw [previous?] at h
  rw [dayNumber, dayNumber]
  split at h
  · obtain ⟨hyear', hmonth', hday'⟩ := of?_eq_some_iff.1 h
    rw [hyear', hmonth', hday']
    omega
  split at h
  · next hlater =>
    obtain ⟨hyear', hmonth', hday'⟩ := of?_eq_some_iff.1 h
    have hmonths := daysBeforeMonth_succ d.year (d.month - 1) (by omega)
    rw [show d.month - 1 + 1 = d.month by omega] at hmonths
    rw [hyear', hmonth', hday']
    omega
  · obtain ⟨hyear', hmonth', hday'⟩ := of?_eq_some_iff.1 h
    have hyears := daysBeforeYear_succ e.year e.year_bounds.1
    have hmonths : daysBeforeMonth e.year 13 = daysBeforeMonth e.year 12 + daysInMonth e.year 12 :=
      rfl
    have hend := daysBeforeMonth_thirteen e.year
    have hlast : daysInMonth e.year 12 = 31 := rfl
    have hfirst : daysBeforeMonth d.year 1 = 0 := rfl
    rw [show e.year + 1 = d.year by omega] at hyears
    rw [hmonth', hday', show d.month = 1 by omega, hfirst]
    omega

theorem first_le_dayNumber (d : Date) : first.dayNumber ≤ d.dayNumber := by
  have hday := d.day_bounds.1
  have hfirst : first.dayNumber = 1 := rfl
  rw [hfirst, dayNumber]
  omega

theorem dayNumber_le_last (d : Date) : d.dayNumber ≤ last.dayNumber := by
  have hyear := d.year_bounds.2
  have hend : daysBeforeYear (d.year + 1) ≤ daysBeforeYear 10000 :=
    daysBeforeYear_le (by omega) (by omega)
  have hlast : last.dayNumber = daysBeforeYear 10000 := rfl
  rw [hlast]
  exact Nat.le_trans d.dayNumber_le_year hend

example : first.dayNumber = 1 ∧ last.dayNumber = 3652059 := by decide

/-- The number of a day between the first and the last. -/
def IsNumber (n : Int) : Prop := first.dayNumber ≤ n ∧ n ≤ last.dayNumber

/-- Every number up to that of the last day is the number of a day. -/
theorem exists_dayNumber_eq {n : Nat} (hfirst : first.dayNumber ≤ n) (hlast : n ≤ last.dayNumber) :
    ∃ d : Date, d.dayNumber = n := by
  induction hfirst with
  | refl => exact ⟨first, rfl⟩
  | @step n _ ih =>
    obtain ⟨d, hd⟩ := ih (by omega)
    cases hnext : d.next? with
    | none =>
      rw [next?_eq_none_iff] at hnext
      subst hnext
      omega
    | some e => exact ⟨e, by rw [dayNumber_of_next? hnext, hd]⟩

end Date

/-! ## Instants -/

theorem TimeOfDay.sinceMidnight_lt (t : TimeOfDay) : t.sinceMidnight < dayLength := by
  have hhour := t.hour_lt
  have hminute := t.minute_lt
  have hsecond := t.second_lt
  have hmicrosecond := t.microsecond_lt
  rw [sinceMidnight, dayLength]
  omega

namespace Moment

/-- The microseconds up to the date and time of a moment, counted from the day before the first, as
if it had no offset. -/
def elapsed (m : Moment) : Int := m.date.dayNumber * dayLength + m.time.sinceMidnight

/-- The microseconds up to a moment of this offset in universal time. -/
def instant (m : Moment) (o : Offset) : Int := m.elapsed - o.microseconds

/-- The number of the day that a moment of this offset falls on in universal time. -/
def universalDay (m : Moment) (o : Offset) : Int := m.instant o / dayLength

theorem universalDay_eq (m : Moment) (o : Offset) : m.universalDay o =
    m.date.dayNumber + (m.time.sinceMidnight - o.microseconds) / dayLength := by
  rw [universalDay, instant, elapsed, Int.add_sub_assoc, Int.add_comm, Int.mul_comm,
    Int.add_mul_ediv_left _ _ (by decide), Int.add_comm]

/-- The date of a moment in universal time is the day that its instant falls on. -/
theorem utcDate?_eq_some_iff {m : Moment} {o : Offset} (ho : m.offset = some o) {d : Date} :
    m.utcDate? = some d ↔ (d.dayNumber : Int) = m.universalDay o := by
  have htime := m.time.sinceMidnight_lt
  have hlower := o.lower
  have hupper := o.upper
  have hfirst := d.first_le_dayNumber
  have hlast := d.dayNumber_le_last
  have hday : (dayLength : Int) = 86400000000 := rfl
  rw [universalDay_eq, utcDate?, ho]
  rw [hday] at hlower hupper
  simp only [hday]
  split
  · have hdays : (m.time.sinceMidnight - o.microseconds) / 86400000000 = -1 := by omega
    rw [hdays]
    cases hprevious : m.date.previous? with
    | none =>
      rw [Date.previous?_eq_none_iff] at hprevious
      rw [hprevious]
      simp only [reduceCtorEq, false_iff]
      omega
    | some e =>
      have hnumber := Date.dayNumber_of_previous? hprevious
      rw [Option.some.injEq, ← Date.dayNumber_inj]
      omega
  split
  · have hdays : (m.time.sinceMidnight - o.microseconds) / 86400000000 = 0 := by omega
    rw [hdays, Option.some.injEq, ← Date.dayNumber_inj]
    omega
  · have hdays : (m.time.sinceMidnight - o.microseconds) / 86400000000 = 1 := by omega
    rw [hdays]
    cases hnext : m.date.next? with
    | none =>
      rw [Date.next?_eq_none_iff] at hnext
      rw [hnext]
      simp only [reduceCtorEq, false_iff]
      omega
    | some e =>
      have hnumber := Date.dayNumber_of_next? hnext
      rw [Option.some.injEq, ← Date.dayNumber_inj]
      omega

/-- A moment has a date in universal time when the day of its instant is one of the calendar. -/
theorem exists_utcDate?_iff {m : Moment} {o : Offset} (ho : m.offset = some o) :
    (∃ d, m.utcDate? = some d) ↔ Date.IsNumber (m.universalDay o) := by
  simp only [utcDate?_eq_some_iff ho, Date.IsNumber]
  constructor
  · rintro ⟨d, hd⟩
    have hfirst := d.first_le_dayNumber
    have hlast := d.dayNumber_le_last
    omega
  · rintro ⟨hfirst, hlast⟩
    obtain ⟨d, hd⟩ := Date.exists_dayNumber_eq (n := (m.universalDay o).toNat) (by omega) (by omega)
    exact ⟨d, by omega⟩

end Moment

/-! ## Values read as dates -/

namespace Value

theorem toDate?_of_toMoment? {v : Value} {m : Moment} (hv : v.toMoment? = some m) :
    v.toDate? = match m.utcDate? with
      | some d => .ok (some d)
      | none => .error ⟨⟩ := by
  by_cases hdate : ∃ d, v = date d
  · obtain ⟨d, rfl⟩ := hdate
    rw [← Option.some.inj hv]
    rfl
  · unfold toDate?
    split
    · next d => exact absurd ⟨d, rfl⟩ hdate
    · cases hutc : m.utcDate? <;> simp only [hv, hutc]

theorem utcDate?_of_toDate? {v : Value} {m : Moment} {d : Date} (hv : v.toMoment? = some m)
    (hd : v.toDate? = .ok (some d)) : m.utcDate? = some d := by
  rw [toDate?_of_toMoment? hv] at hd
  cases hdate : m.utcDate? with
  | none => simp [hdate] at hd
  | some e => simpa [hdate] using hd

/-- What stands for a moment without an offset is read as the date of the moment. With an offset it
is read as the day that the instant falls on, and cannot be read just when the calendar has no such
day. So moments of the same instant are read as the same date, and a later one never as an earlier
date. -/
theorem date_of_instant {v : Value} {m : Moment} (hv : v.toMoment? = some m) :
    (m.offset = none → v.toDate? = .ok (some m.date)) ∧
    ∀ o, m.offset = some o →
      (Date.IsNumber (m.universalDay o) →
        ∃ d, v.toDate? = .ok (some d) ∧ d.dayNumber = m.universalDay o) ∧
      (v.toDate? = .error ⟨⟩ ↔ ¬ Date.IsNumber (m.universalDay o)) ∧
      ∀ (w : Value) (m' : Moment) (o' : Offset), w.toMoment? = some m' → m'.offset = some o' →
        (m.instant o = m'.instant o' → v.toDate? = w.toDate?) ∧
        (m.instant o ≤ m'.instant o' → ∀ d d', v.toDate? = .ok (some d) →
          w.toDate? = .ok (some d') → ¬ d'.Before d) := by
  have hread := toDate?_of_toMoment? hv
  refine ⟨fun ho => ?_, fun o ho => ⟨fun hnumber => ?_, ?_, fun w m' o' hw ho' => ?_⟩⟩
  · rw [hread, Moment.utcDate?, ho]
  · obtain ⟨d, hd⟩ := (Moment.exists_utcDate?_iff ho).2 hnumber
    refine ⟨d, ?_, (Moment.utcDate?_eq_some_iff ho).1 hd⟩
    rw [hread, hd]
  · rw [← Moment.exists_utcDate?_iff ho, hread]
    cases m.utcDate? <;> simp
  · have hread' := toDate?_of_toMoment? hw
    constructor
    · intro hinstant
      have hdate : m.utcDate? = m'.utcDate? := by
        refine Option.ext fun d => ?_
        rw [Moment.utcDate?_eq_some_iff ho, Moment.utcDate?_eq_some_iff ho', Moment.universalDay,
          Moment.universalDay, hinstant]
      rw [hread, hread', hdate]
    · intro hinstant d d' hd hd'
      have hdays : m.universalDay o ≤ m'.universalDay o' :=
        Int.ediv_le_ediv (by decide) hinstant
      rw [← (Moment.utcDate?_eq_some_iff ho).1 (utcDate?_of_toDate? hv hd),
        ← (Moment.utcDate?_eq_some_iff ho').1 (utcDate?_of_toDate? hw hd')] at hdays
      rw [← Date.dayNumber_lt_iff]
      omega

/-- Late in the evening of the last of February, five hours behind universal time. -/
def leapEvening : Moment :=
  ⟨(Date.of? 2024 2 29).get rfl, (TimeOfDay.of? 22 30 0 0).get rfl,
    some ⟨-18000000000, by decide, by decide⟩⟩

/-- In universal time the leap day is over by then. -/
theorem date_of_leapEvening :
    (text "2024-02-29T22:30:00-05:00").toMoment? = some leapEvening ∧
    Date.IsNumber (leapEvening.universalDay ⟨-18000000000, by decide, by decide⟩) ∧
    ∃ d, (text "2024-02-29T22:30:00-05:00").toDate? = .ok (some d) ∧ d.dayNumber = 738946 := by
  have hread : (text "2024-02-29T22:30:00-05:00").toMoment? = some leapEvening := rfl
  have hnumber : Date.IsNumber (leapEvening.universalDay ⟨-18000000000, by decide, by decide⟩) := by
    rw [Date.IsNumber]
    decide
  obtain ⟨d, hd, hday⟩ := ((date_of_instant hread).2 _ rfl).1 hnumber
  exact ⟨hread, hnumber, d, hd, Int.ofNat_inj.1 hday⟩

end Value
end RecordProjection
