import RecordProjection.Record.Coercion

/-!
# Dates in universal time

A moment has a date in universal time unless its offset leads out of the calendar: before its first
day, or behind its last.

## Main definitions

* `Date.first`, `Date.last` : the ends of the calendar.
* `Moment.Outside` : the date of a moment in universal time lies outside the calendar.
-/
namespace RecordProjection

namespace Date

/-- The first day of the calendar. -/
def first : Date := ⟨1, 1, 1, by decide, by decide, by decide⟩

/-- The last day of the calendar. -/
def last : Date := ⟨9999, 12, 31, by decide, by decide, by decide⟩

theorem of?_eq_none_iff {year month day : Nat} : of? year month day = none ↔
    ¬ ((1 ≤ year ∧ year ≤ 9999) ∧ (1 ≤ month ∧ month ≤ 12) ∧
      1 ≤ day ∧ day ≤ daysInMonth year month) := by
  rw [of?]
  split
  · next h => simp [h]
  · next h => simp [h]

theorem eq_iff {d e : Date} : d = e ↔ d.year = e.year ∧ d.month = e.month ∧ d.day = e.day := by
  cases d
  cases e
  simp

theorem one_le_daysInMonth (year month : Nat) : 1 ≤ daysInMonth year month := by
  rw [daysInMonth]
  repeat' split
  all_goals omega

/-- Only the first day has no day before it. -/
theorem previous?_eq_none_iff {d : Date} : d.previous? = none ↔ d = first := by
  obtain ⟨⟨hyear, hyear'⟩, ⟨hmonth, hmonth'⟩, hday, hday'⟩ :=
    And.intro d.year_bounds (And.intro d.month_bounds d.day_bounds)
  rw [eq_iff, previous?]
  split
  · next h =>
    rw [of?_eq_none_iff]
    simp only [first]
    omega
  split
  · next h =>
    have := one_le_daysInMonth d.year (d.month - 1)
    rw [of?_eq_none_iff]
    simp only [first]
    omega
  next h h' =>
    have hlast : daysInMonth (d.year - 1) 12 = 31 := rfl
    rw [of?_eq_none_iff]
    simp only [first]
    omega

/-- Only the last day has no day after it. -/
theorem next?_eq_none_iff {d : Date} : d.next? = none ↔ d = last := by
  obtain ⟨⟨hyear, hyear'⟩, ⟨hmonth, hmonth'⟩, hday, hday'⟩ :=
    And.intro d.year_bounds (And.intro d.month_bounds d.day_bounds)
  rw [eq_iff, next?]
  split
  · next h =>
    have hlast : d.month = 12 → daysInMonth d.year d.month = 31 := by
      intro h
      rw [h]
      rfl
    rw [of?_eq_none_iff]
    simp only [last]
    omega
  split
  · next h =>
    have := one_le_daysInMonth d.year (d.month + 1)
    rw [of?_eq_none_iff]
    simp only [last]
    omega
  next h h' =>
    have hfirst : 1 ≤ daysInMonth (d.year + 1) 1 := one_le_daysInMonth _ _
    have hlast : daysInMonth d.year d.month = 31 := by
      rw [show d.month = 12 by omega]
      rfl
    rw [of?_eq_none_iff]
    simp only [last]
    omega

end Date

namespace Moment

/-- The date of a moment in universal time lies outside the calendar. -/
def Outside (m : Moment) : Prop :=
  ∃ o, m.offset = some o ∧
    ((m.date = .first ∧ (m.time.sinceMidnight : Int) < o.microseconds) ∨
      (m.date = .last ∧ (dayLength : Int) ≤ m.time.sinceMidnight - o.microseconds))

theorem utcDate?_eq_none_iff {m : Moment} : m.utcDate? = none ↔ m.Outside := by
  rw [utcDate?, Outside]
  cases ho : m.offset with
  | none => simp
  | some o =>
    have hday : 0 < (dayLength : Int) := by decide
    simp only [Option.some.injEq, exists_eq_left']
    split
    · next h =>
      have hbefore : (m.time.sinceMidnight : Int) < o.microseconds := by omega
      have hbehind : ¬ (dayLength : Int) ≤ m.time.sinceMidnight - o.microseconds := by omega
      simp [Date.previous?_eq_none_iff, hbefore, hbehind]
    split
    · next h h' =>
      have hbefore : ¬ (m.time.sinceMidnight : Int) < o.microseconds := by omega
      have hbehind : ¬ (dayLength : Int) ≤ m.time.sinceMidnight - o.microseconds := by omega
      simp [hbefore, hbehind]
    next h h' =>
      have hbefore : ¬ (m.time.sinceMidnight : Int) < o.microseconds := by omega
      have hbehind : (dayLength : Int) ≤ m.time.sinceMidnight - o.microseconds := by omega
      simp [Date.next?_eq_none_iff, hbefore, hbehind]

end Moment

namespace Value

/-- A value cannot be read as a date just when it stands for a moment outside the calendar. -/
theorem toDate?_eq_error_iff {v : Value} :
    v.toDate? = .error ⟨⟩ ↔ ∃ m, v.toMoment? = some m ∧ m.Outside := by
  by_cases hv : ∃ d, v = date d
  · obtain ⟨d, rfl⟩ := hv
    simp [toDate?, toMoment?, Moment.Outside, Moment.ofDate]
  · rw [toDate?]
    · cases v.toMoment? with
      | none => simp
      | some m =>
        simp only [Option.some.injEq, exists_eq_left', ← Moment.utcDate?_eq_none_iff]
        cases m.utcDate? <;> simp
    · rintro d rfl
      exact hv ⟨d, rfl⟩

end Value
end RecordProjection
