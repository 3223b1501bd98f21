import RecordProjection.Proofs.Calendar.Reading
import RecordProjection.Proofs.Text.Octets

/-!
# Dates at the front of a timestamp

How wide the date of a timestamp is shows in its first octets and in the digits that go on behind
it; what stands further back is of no account. So a timestamp that is read consists of a date and a
time, and another time that begins with the same digits may stand in it.

## Main definitions

* `Timestamp.isDateChar` : a character of which dates are made.
-/
namespace RecordProjection.Timestamp

open Text Number

/-! ## Dates -/

/-- A character of which dates are made. -/
def isDateChar (c : Char) : Bool := isDigit c || c = '-' || c = 'W'

theorem isDateChar_of_isDigit {c : Char} (h : isDigit c = true) : isDateChar c = true := by
  simp [isDateChar, h]

theorem toNat_lt_of_isDateChar {c : Char} (h : isDateChar c = true) : c.toNat < 0x80 := by
  obtain (h | rfl) | rfl : (isDigit c = true ∨ c = '-') ∨ c = 'W' := by simpa [isDateChar] using h
  · have := toNat_of_isDigit h
    omega
  all_goals decide

/-- A hyphen, if one has to be there. -/
def dash (required : Bool) : List Char := if required then ['-'] else []

theorem isDateChar_of_mem_dash {required : Bool} : ∀ c ∈ dash required, isDateChar c = true := by
  cases required <;> exact List.all_eq_true.1 rfl

theorem readDash?_eq_some_iff {required : Bool} {s r : List Char} :
    readDash? required s = some r ↔ s = dash required ++ r := by
  cases required with
  | false => simp [readDash?, dash]
  | true =>
    rw [readDash?.eq_def]
    split <;> simp_all [dash]

/-- A month and a day take what is left of the width of their date. -/
theorem exists_of_readMonthDay? {dashed : Bool} {year used width : Nat} {s : List Char} {d : Date}
    (h : readMonthDay? dashed year used width s = some d) : ∃ a r, s = a ++ r ∧
      used + a.length = width ∧ 4 ≤ a.length ∧ (∀ c ∈ a, isDateChar c = true) ∧
      (∀ c ∈ a.head?, isDigit c = true) ∧
      ∀ r', readMonthDay? dashed year used width (a ++ r') = some d := by
  obtain ⟨⟨month, s₁⟩, hmonth, hrest⟩ := Option.bind_eq_some_iff.1 h
  obtain ⟨s₂, hdash, hrest⟩ := Option.bind_eq_some_iff.1 hrest
  obtain ⟨⟨day, r⟩, hday, hdate⟩ := Option.bind_eq_some_iff.1 hrest
  obtain ⟨ms, rfl, hms, hmdigits, hmonth'⟩ := exists_of_readDigits hmonth
  obtain rfl := readDash?_eq_some_iff.1 hdash
  obtain ⟨ds, rfl, hds, hddigits, hday'⟩ := exists_of_readDigits hday
  replace hdate : (if (used + if dashed = true then 5 else 4) = width then
    Date.of? year month day else none) = some d := hdate
  by_cases hwidth : (used + if dashed = true then 5 else 4) = width
  · refine ⟨ms ++ dash dashed ++ ds, r, by simp, ?_, by simp; omega, ?_, ?_, fun r' => ?_⟩
    · cases dashed <;> simp_all [dash]
    · simp only [List.forall_mem_append]
      exact ⟨⟨fun c hc => isDateChar_of_isDigit (hmdigits c hc), isDateChar_of_mem_dash⟩,
        fun c hc => isDateChar_of_isDigit (hddigits c hc)⟩
    · intro c hc
      obtain ⟨b, bs, rfl⟩ := List.exists_cons_of_length_eq_add_one hms
      exact hmdigits c (by simp_all)
    · have hdash' : readDash? dashed (dash dashed ++ (ds ++ r')) = some (ds ++ r') :=
        readDash?_eq_some_iff.2 rfl
      simp only [readMonthDay?, List.append_assoc, hmonth', hdash', hday', Option.bind_eq_bind,
        Option.bind_some]
      rw [if_pos hwidth] at hdate ⊢
      exact hdate
  · rw [if_neg hwidth] at hdate
    cases hdate

/-- A week takes two digits, and a day behind it one more, where the date goes on. -/
theorem exists_of_readWeek? {dashed : Bool} {year used width : Nat} {s : List Char} {d : Date}
    (h : readWeek? dashed year used width s = some d) : ∃ a r, s = a ++ r ∧
      a.length = (if used + 2 < width then 3 + (dash dashed).length else 2) ∧
      (∀ c ∈ a, isDateChar c = true) ∧
      ∀ r', readWeek? dashed year used width (a ++ r') = some d := by
  obtain ⟨⟨week, s₁⟩, hweek, hrest⟩ := Option.bind_eq_some_iff.1 h
  obtain ⟨ws, rfl, hws, hwdigits, hweek'⟩ := exists_of_readDigits hweek
  have hwchars : ∀ c ∈ ws, isDateChar c = true :=
    fun c hc => isDateChar_of_isDigit (hwdigits c hc)
  by_cases hwidth : used + 2 < width
  · simp only [if_pos hwidth] at hrest
    obtain ⟨s₂, hdash, hrest⟩ := Option.bind_eq_some_iff.1 hrest
    obtain ⟨⟨day, r⟩, hday, hdate⟩ := Option.bind_eq_some_iff.1 hrest
    obtain rfl := readDash?_eq_some_iff.1 hdash
    obtain ⟨ds, rfl, hds, hddigits, hday'⟩ := exists_of_readDigits hday
    refine ⟨ws ++ dash dashed ++ ds, r, by simp, ?_, ?_, fun r' => ?_⟩
    · rw [if_pos hwidth]
      simp only [List.length_append]
      omega
    · simp only [List.forall_mem_append]
      exact ⟨⟨hwchars, isDateChar_of_mem_dash⟩, fun c hc => isDateChar_of_isDigit (hddigits c hc)⟩
    · have hdash' : readDash? dashed (dash dashed ++ (ds ++ r')) = some (ds ++ r') :=
        readDash?_eq_some_iff.2 rfl
      simp only [readWeek?, List.append_assoc, hweek', Option.bind_eq_bind, Option.bind_some,
        if_pos hwidth, hdash', hday']
      exact hdate
  · simp only [if_neg hwidth] at hrest
    refine ⟨ws, s₁, rfl, by rw [if_neg hwidth, hws], hwchars, fun r' => ?_⟩
    simp only [readWeek?, hweek', Option.bind_eq_bind, Option.bind_some, if_neg hwidth]
    exact hrest

/-! ## Whole dates -/

/-- Whether a hyphen stands at the front of a text, and what stands behind it. -/
def splitDash : List Char → Bool × List Char
  | '-' :: s => (true, s)
  | s => (false, s)

theorem splitDash_append {dashed : Bool} {r : List Char}
    (hdash : dashed = false → r.head? ≠ some '-') : splitDash (dash dashed ++ r) = (dashed, r) := by
  cases dashed with
  | true => rfl
  | false =>
    rw [dash, if_neg Bool.false_ne_true, List.nil_append, splitDash.eq_def]
    split
    · exact absurd rfl (hdash rfl)
    · rfl

theorem eq_dash_append (s : List Char) : s = dash (splitDash s).1 ++ (splitDash s).2 ∧
    ((splitDash s).1 = false → (splitDash s).2.head? ≠ some '-') := by
  rw [splitDash.eq_def]
  split
  · exact ⟨rfl, by simp⟩
  · next hplain =>
    refine ⟨rfl, fun _ hhead => ?_⟩
    obtain ⟨r, hr⟩ := List.head?_eq_some_iff.1 hhead
    exact hplain r hr

theorem readDate?_eq (width : Nat) (s : List Char) : readDate? width s =
    (readDigits 4 0 s).bind fun p =>
      let used := if (splitDash p.2).1 then 5 else 4
      match (splitDash p.2).2 with
      | 'W' :: s => readWeek? (splitDash p.2).1 p.1 (used + 1) width s
      | s => readMonthDay? (splitDash p.2).1 p.1 used width s := rfl

/-- Behind a year and a `W`, with a hyphen between them or not, stand a week and possibly a day. -/
theorem readDate?_week {dashed : Bool} {width year : Nat} {s r : List Char}
    (hyear : readDigits 4 0 s = some (year, dash dashed ++ 'W' :: r)) :
    readDate? width s = readWeek? dashed year ((dash dashed).length + 5) width r := by
  rw [readDate?_eq, hyear, Option.bind_some, splitDash_append (by simp)]
  cases dashed <;> rfl

/-- Behind a year and anything else stand a month and a day. -/
theorem readDate?_monthDay {dashed : Bool} {width year : Nat} {s r : List Char}
    (hyear : readDigits 4 0 s = some (year, dash dashed ++ r)) (hweek : r.head? ≠ some 'W')
    (hdash : dashed = false → r.head? ≠ some '-') :
    readDate? width s = readMonthDay? dashed year ((dash dashed).length + 4) width r := by
  rw [readDate?_eq, hyear, Option.bind_some, splitDash_append hdash]
  dsimp only
  split
  · exact absurd rfl hweek
  · cases dashed <;> rfl

/-- How wide a week date may be. -/
theorem dateWidth?_week {dashed : Bool} {ys r : List Char} {width : Nat} (hys : ys.length = 4)
    (h : dateWidth? (ys ++ (dash dashed ++ 'W' :: r)) = some width) :
    width = 7 ∧ (dashed = true → r.length = 1) ∨ width = 8 ∨ width = 10 ∧ dashed = true := by
  cases dashed with
  | true =>
    have hdash : (ys ++ (dash true ++ 'W' :: r))[4]? = some '-' := by
      simp [dash, ← hys]
    have hweek : (ys ++ (dash true ++ 'W' :: r))[5]? = some 'W' := by
      rw [List.getElem?_append_right (by omega), hys]
      rfl
    have hlength : (ys ++ (dash true ++ 'W' :: r)).length = r.length + 6 := by
      simp [dash, hys]
      omega
    rw [dateWidth?, if_pos hdash, if_pos hweek, hlength] at h
    split_ifs at h <;> (injection h; simp; omega)
  | false =>
    have hweek : (ys ++ (dash false ++ 'W' :: r))[4]? = some 'W' := by
      simp [dash, ← hys]
    have hplain : ¬ (ys ++ (dash false ++ 'W' :: r))[4]? = some '-' := by
      simp [hweek]
    rw [dateWidth?, if_neg hplain, if_pos hweek] at h
    dsimp only at h
    split_ifs at h <;> (injection h; simp; omega)

/-- The date at the front of a timestamp takes its width, and what stands behind it is not read. -/
theorem exists_of_readDate? {width : Nat} {s : List Char} {d : Date}
    (hwidth : dateWidth? s = some width) (h : readDate? width s = some d) : ∃ a r, s = a ++ r ∧
      a.length = width ∧ 7 ≤ width ∧ (∀ c ∈ a, isDateChar c = true) ∧
      ∀ r', readDate? width (a ++ r') = some d := by
  have hsome := h
  rw [readDate?_eq] at hsome
  obtain ⟨⟨year, s₁⟩, hyear, -⟩ := Option.bind_eq_some_iff.1 hsome
  obtain ⟨ys, rfl, hys, hdigits, hyear'⟩ := exists_of_readDigits hyear
  have hychars : ∀ c ∈ ys, isDateChar c = true :=
    fun c hc => isDateChar_of_isDigit (hdigits c hc)
  obtain ⟨dashed, s₂, rfl, hdash⟩ : ∃ dashed s₂, s₁ = dash dashed ++ s₂ ∧
    (dashed = false → s₂.head? ≠ some '-') := ⟨_, _, eq_dash_append s₁⟩
  by_cases hweek : s₂.head? = some 'W'
  · obtain ⟨r₁, rfl⟩ := List.head?_eq_some_iff.1 hweek
    rw [readDate?_week hyear] at h
    obtain ⟨a, r, rfl, ha, hachars, hread⟩ := exists_of_readWeek? h
    have hwidths := dateWidth?_week hys hwidth
    have hlength : (ys ++ (dash dashed ++ 'W' :: a)).length = width ∧ 7 ≤ width := by
      simp only [List.length_append, List.length_cons, hys] at hwidths ⊢
      cases dashed <;> simp [dash] at hwidths ha ⊢ <;> split_ifs at ha <;> omega
    refine ⟨ys ++ (dash dashed ++ 'W' :: a), r, by simp, hlength.1, hlength.2, ?_, fun r' => ?_⟩
    · simp only [List.forall_mem_append, List.forall_mem_cons]
      exact ⟨hychars, isDateChar_of_mem_dash, rfl, hachars⟩
    · rw [List.append_assoc, List.append_assoc, List.cons_append, readDate?_week (hyear' _)]
      exact hread r'
  · rw [readDate?_monthDay hyear hweek hdash] at h
    obtain ⟨a, r, rfl, ha, hlength, hachars, hhead, hread⟩ := exists_of_readMonthDay? h
    refine ⟨ys ++ (dash dashed ++ a), r, by simp, by simp; omega, by omega, ?_, fun r' => ?_⟩
    · simp only [List.forall_mem_append]
      exact ⟨hychars, isDateChar_of_mem_dash, hachars⟩
    · obtain ⟨c, b, rfl⟩ : ∃ c b, a = c :: b := List.exists_cons_of_length_pos (by omega)
      have hc : isDigit c = true := hhead c rfl
      rw [List.append_assoc, List.append_assoc, readDate?_monthDay (hyear' _)]
      · exact hread r'
      · rintro ⟨⟩
        cases hc
      · rintro - ⟨⟩
        cases hc

/-! ## Widths -/

/-- The width of a date shows in the first ten octets and the digits behind them. -/
theorem dateWidth?_append {p z : List Char} (hp : 10 ≤ p.length) (hz : EndsDigits z) :
    dateWidth? (p ++ z) = dateWidth? p := by
  have hnear {k : Nat} (hk : k < 10) : (p ++ z)[k]? = p[k]? :=
    List.getElem?_append_left (by omega)
  have hten : ((p ++ z)[10]?.map isDigit).getD false = (p[10]?.map isDigit).getD false := by
    by_cases hlong : 10 < p.length
    · rw [List.getElem?_append_left hlong]
    · have hlength : p.length = 10 := by omega
      have hnone : p[10]? = none := List.getElem?_eq_none (by omega)
      rw [List.getElem?_append_right (by omega), hnone, hlength]
      cases z with
      | nil => rfl
      | cons c z => exact hz c rfl
  have hrun : digitRun ((p ++ z).drop 7) = digitRun (p.drop 7) := by
    rw [digitRun, digitRun, List.drop_append_of_le_length (by omega), List.takeWhile_append,
      hz.takeWhile_eq, List.append_nil]
    split
    · next hall => exact hall.symm
    · rfl
  have hlong : (p.length ≠ 7 ∧ ¬ p.length < 8 ∧ p.length ≠ 9) ∧
      (p ++ z).length ≠ 7 ∧ ¬ (p ++ z).length < 8 ∧ (p ++ z).length ≠ 9 := by
    rw [List.length_append]
    omega
  simp only [dateWidth?, hnear (show 4 < 10 by omega), hnear (show 5 < 10 by omega),
    hnear (show 8 < 10 by omega), hten, hrun, hlong, if_false]

/-! ## Separators -/

/-- The separator is the character behind the date. -/
theorem dropSeparator_octets (c : Char) (cs : List Char) :
    dropSeparator (octets (c :: cs)) = octets cs := by
  by_cases hc : c.toNat < 0x80
  · rw [octets_cons_of_ascii hc, dropSeparator]
    simp [front, hc]
  · obtain ⟨b, bs, hoctets, hlarge, hlength⟩ := exists_octets_of_not_ascii (Nat.le_of_not_lt hc)
    have hb : ¬ b.toNat < 0x80 := Nat.not_lt.2 (hlarge b List.mem_cons_self)
    have hdrop : (b :: bs ++ octets cs).drop (bs.length + 1) = octets cs :=
      List.drop_left' rfl
    rw [hlength] at hdrop
    rw [octets_cons, hoctets]
    show (if b.toNat < 0x80 then _ else if b.toNat / 16 = 0xE then _
      else if b.toNat / 16 = 0xF then _ else _) = _
    rw [if_neg hb]
    split_ifs at hdrop ⊢ <;> exact hdrop

/-- A date and a time are read one after the other. -/
theorem readExact?_append {a : List Char} {width : Nat} {date : Date} (ha : a.length = width)
    (hseven : 7 ≤ width) (hascii : ∀ c ∈ a, c.toNat < 0x80)
    (hdate : ∀ r, readDate? width (a ++ r) = some date) {c : Char} {s : List Char}
    (hwidth : dateWidth? (octets (a ++ c :: s)) = some width) :
    readExact? (a ++ c :: s) = (readTime? (octets s)).map fun t => ⟨date, t.1, t.2⟩ := by
  have hchars : ¬ (a ++ c :: s).length < 7 := by
    rw [List.length_append]
    omega
  have hoctets : octets (a ++ c :: s) = a ++ octets (c :: s) := by
    rw [octets_append, octets_of_ascii hascii]
  have hlong : ¬ (a ++ octets (c :: s)).length ≤ width := by
    have hbehind := length_le_length_octets (c :: s)
    rw [List.length_cons] at hbehind
    rw [List.length_append]
    omega
  rw [hoctets] at hwidth
  simp only [readExact?, if_neg hchars, hoctets, hwidth, hdate, if_neg hlong, List.drop_left' ha,
    dropSeparator_octets, Option.bind_eq_bind, Option.bind_some, Option.map_eq_bind]
  rfl

/-- A timestamp that is read is a date, or a date and a time with one character between them. In
front of a time that goes on behind the same two digits the date is the same. -/
theorem exists_of_readExact? {cs : List Char} {m : Moment} (h : readExact? cs = some m) :
    (m.offset = none ∧ ∀ c ∈ cs, isDateChar c = true) ∨
    ∃ (a : List Char) (c : Char) (s : List Char), cs = a ++ c :: s ∧
      (∀ c ∈ a, isDateChar c = true) ∧ readTime? (octets s) = some (m.time, m.offset) ∧
      ∀ k y y', s = k ++ y → 2 ≤ k.length → EndsDigits (octets y) → EndsDigits (octets y') →
        readExact? (a ++ c :: (k ++ y')) =
          (readTime? (octets (k ++ y'))).map fun t => ⟨m.date, t.1, t.2⟩ := by
  have hread := h
  rw [readExact?] at h
  split at h
  · cases h
  obtain ⟨width, hwidth, h⟩ := Option.bind_eq_some_iff.1 h
  obtain ⟨date, hdate, h⟩ := Option.bind_eq_some_iff.1 h
  obtain ⟨a, r, har, hlength, hseven, hachars, hdate'⟩ := exists_of_readDate? hwidth hdate
  have hascii : ∀ c ∈ a, c.toNat < 0x80 := fun c hc => toNat_lt_of_isDateChar (hachars c hc)
  obtain ⟨s, rfl, rfl⟩ := exists_of_octets_eq_append hascii har
  cases s with
  | nil =>
    rw [har, octets_nil, List.append_nil, if_pos (Nat.le_of_eq hlength)] at h
    obtain rfl := Option.some.inj h
    exact .inl ⟨rfl, by simpa using hachars⟩
  | cons c s =>
    rw [readExact?_append hlength hseven hascii hdate' hwidth] at hread
    obtain ⟨t, htime, rfl⟩ := Option.map_eq_some_iff.1 hread
    refine .inr ⟨a, c, s, rfl, hachars, htime, ?_⟩
    rintro k y y' rfl hk hy hy'
    refine readExact?_append hlength hseven hascii hdate' ?_
    have hp : 10 ≤ (a ++ octets (c :: k)).length := by
      have hoctets := length_le_length_octets (c :: k)
      rw [List.length_cons] at hoctets
      rw [List.length_append]
      omega
    have hsplit (z : List Char) :
        octets (a ++ c :: (k ++ z)) = a ++ octets (c :: k) ++ octets z := by
      rw [octets_append, octets_of_ascii hascii, ← List.cons_append, octets_append,
        List.append_assoc]
    rw [hsplit, dateWidth?_append hp hy] at hwidth
    rw [hsplit, dateWidth?_append hp hy', hwidth]

end RecordProjection.Timestamp
