import RecordProjection.Proofs.Calendar.DateForms
import RecordProjection.Proofs.Calendar.WrittenMoments
import RecordProjection.Text.Blank

/-!
# Repairs

The repairs are made to a text, wherever in it they fit, but what can be read without them is read
the same with them: the fraction that is brought to six digits is that of the time itself or stands
where nothing is read, and a final `Z` is an offset. A final `z` is none to the reader, who comes by
one only behind a character U+0000, which he takes for the end; it is an offset all the same once
it is repaired.
-/
namespace RecordProjection.Timestamp

open Text Number

/-! ## The letter at the end -/

theorem endsClock_zulu {c : Char} (hc : c = 'Z' ∨ c = 'z') (r : List Char) :
    EndsClock (c :: r) := by
  rcases hc with rfl | rfl <;> exact endsClock_cons (by decide) r

theorem expandZulu_concat {c : Char} (hc : c = 'Z' ∨ c = 'z') (q : List Char) :
    expandZulu (q ++ [c]) = q ++ "+00:00".toList := by
  rcases hc with rfl | rfl <;> simp [expandZulu]

theorem endsClock_plus : EndsClock "+00:00".toList := endsClock_of_startsOffset rfl _

section Behind
variable {u : List Char} {t : TimeOfDay × Option Offset}
  (hu : ∀ c ∈ u, startsOffset c = false)
include hu

/-- A time that goes as far as the sign of an offset of no length. -/
theorem readTime?_plus {clock : Clock}
    (hclock : readClock? u.length (u ++ "+00:00".toList) = some clock)
    (hzone : readZone? clock.overrun "+00:00".toList = some t.2)
    (htime : TimeOfDay.of? clock.hour clock.minute clock.second clock.microsecond = some t.1) :
    readTime? (u ++ "+00:00".toList) = some t := by
  refine (readTime?_eq_some_iff hu ?_).2 ⟨clock, hclock, hzone, htime⟩
  rintro c ⟨⟩
  rfl

/-- A `Z` behind the clock is an offset of no length. -/
theorem readTime?_plus_of_upper (h : readTime? (u ++ ['Z']) = some t) :
    readTime? (u ++ "+00:00".toList) = some t := by
  have hzulu : ∀ c ∈ ['Z'].head?, startsOffset c = true := by
    rintro c ⟨⟩
    rfl
  obtain ⟨clock, hclock, hzone, htime⟩ := (readTime?_eq_some_iff hu hzulu).1 h
  have hread := (stopsAtEnd_readClock hclock (endsClock_zulu (.inl rfl) []) (Nat.le_refl _)).2 _
    endsClock_plus (Nat.le_refl _) (.inl rfl)
  exact readTime?_plus hu hread.1 hzone htime

/-- A `z` behind the clock is not seen, because the clock ends in front of it. -/
theorem readTime?_plus_of_lower (h : readTime? (u ++ ['z']) = some t) :
    t.2 = none ∧ '\x00' ∈ u ∧ readTime? (u ++ "+00:00".toList) = some (t.1, some .utc) := by
  have hu' : ∀ c ∈ u ++ ['z'], startsOffset c = false :=
    List.forall_mem_append.2 ⟨hu, List.forall_mem_singleton.2 rfl⟩
  rw [← List.append_nil (u ++ ['z'])] at h
  obtain ⟨clock, hclock, hzone, htime⟩ := (readTime?_eq_some_iff hu' (by simp)).1 h
  have hoverrun : clock.overrun = false ∧ t.2 = none := by
    rw [readZone?] at hzone
    split at hzone
    · cases hzone
    · next hfalse => exact ⟨by simpa using hfalse, (Option.some.inj hzone).symm⟩
  rw [List.append_nil] at hclock
  obtain ⟨hnul, hread⟩ := stopsAtEnd_readClock hclock (endsClock_zulu (.inr rfl) []) (by simp)
  have hclock' :=
    (hread u.length endsClock_plus (Nat.le_refl _) (.inr ⟨by simp, .inr hoverrun.1⟩)).1
  exact ⟨hoverrun.2, hnul hoverrun.1, readTime?_plus hu hclock' rfl htime⟩

end Behind

/-- A time in front of a final letter is the same in front of an offset of no length, but has that
offset. -/
theorem readTime?_expanded {u : List Char} {c : Char} {t : TimeOfDay × Option Offset}
    (hc : c = 'Z' ∨ c = 'z') (h : readTime? (u ++ [c]) = some t) :
    (c = 'Z' ∨ t.2 ≠ none → readTime? (u ++ "+00:00".toList) = some t) ∧
    (c = 'z' → t.2 = none →
      '\x00' ∈ u ∧ readTime? (u ++ "+00:00".toList) = some (t.1, some .utc)) := by
  by_cases hstart : ∃ c ∈ u, startsOffset c = true
  · obtain ⟨hoffset, hread⟩ := readTime?_behind_offset hstart (endsClock_zulu hc []) endsClock_plus h
    exact ⟨fun _ => hread, fun _ hnone => absurd hnone hoffset⟩
  have hu : ∀ c ∈ u, startsOffset c = false := by
    intro c hc
    by_contra hne
    exact hstart ⟨c, hc, by simpa using hne⟩
  rcases hc with rfl | rfl
  · exact ⟨fun _ => readTime?_plus_of_upper hu h, fun habsurd => absurd habsurd (by decide)⟩
  · obtain ⟨hnone, hread⟩ := readTime?_plus_of_lower hu h
    refine ⟨fun hz => ?_, fun _ _ => hread⟩
    rcases hz with hz | hz
    · exact absurd hz (by decide)
    · exact absurd hnone hz

/-! ## Fractions -/

/-- A time of three fields of two decimal digits of any script, as it is written with a fraction. -/
structure WrittenTime where
  hour : List Char
  minute : List Char
  second : List Char
  length_hour : hour.length = 2
  length_minute : minute.length = 2
  length_second : second.length = 2
  isDecimalDigit_of_mem : ∀ c ∈ hour ++ minute ++ second, isDecimalDigit c = true

/-- The fields of a time with colons between them, a point and what stands behind it. -/
def WrittenTime.withFraction (t : WrittenTime) (ds : List Char) : List Char :=
  t.hour ++ ':' :: (t.minute ++ ':' :: (t.second ++ '.' :: ds))

theorem WrittenTime.withFraction_append (t : WrittenTime) (ds z : List Char) :
    t.withFraction (ds ++ z) = t.withFraction ds ++ z := by
  simp [withFraction]

theorem head?_of_isOffsetOrEnd {z : List Char} (h : isOffsetOrEnd z = true) :
    ∀ c ∈ z.head?, c = '+' ∨ c = '-' := by
  rw [isOffsetOrEnd.eq_def] at h
  split at h
  · simp
  · simp_all
  · simp_all
  · cases h

/-- What is normalized is a time with a fraction, in front of an offset or of the end. -/
theorem exists_of_normalizedTime? {cs cs' : List Char} (h : normalizedTime? cs = some cs') :
    ∃ (t : WrittenTime) (ds z : List Char), cs = 'T' :: t.withFraction (ds ++ z) ∧
      cs' = 'T' :: t.withFraction (sixDigits ds ++ z) ∧
      (∀ c ∈ ds, isDecimalDigit c = true) ∧ ds ≠ [] ∧ ∀ c ∈ z.head?, c = '+' ∨ c = '-' := by
  rw [normalizedTime?] at h
  split at h
  · next htime =>
    dsimp only at h
    split at h
    · next hfraction =>
      obtain rfl := Option.some.inj h
      rw [isTimeBeforePoint.eq_def] at htime
      split at htime
      · next a b p c d q e f r heq =>
        simp only [Bool.and_eq_true, decide_eq_true_eq, List.all_cons, List.all_nil]
          at htime hfraction
        obtain ⟨⟨⟨rfl, rfl⟩, rfl⟩, ha, hb, hc, hd, he, hf, -⟩ := htime
        have hfields : ∀ x ∈ [a, b] ++ [c, d] ++ [e, f], isDecimalDigit x = true := by
          simp [ha, hb, hc, hd, he, hf]
        refine ⟨⟨[a, b], [c, d], [e, f], rfl, rfl, rfl, hfields⟩,
          (cs.drop 10).takeWhile isDecimalDigit, (cs.drop 10).dropWhile isDecimalDigit, ?_, ?_,
          fun c hc => List.mem_takeWhile_imp hc, hfraction.1, head?_of_isOffsetOrEnd hfraction.2⟩
        · have hcs := List.take_append_drop 10 cs
          rw [heq, ← @List.takeWhile_append_dropWhile _ isDecimalDigit (cs.drop 10)] at hcs
          exact hcs.symm
        · simp [heq, WrittenTime.withFraction, sixDigits]
      · cases htime
    · cases h
  · cases h

/-- A text in which a time is normalized, or none. -/
theorem exists_of_normalizeFraction (cs : List Char) : normalizeFraction cs = cs ∨
    ∃ k x x', cs = k ++ x ∧ normalizedTime? x = some x' ∧ normalizeFraction cs = k ++ x' := by
  induction cs with
  | nil => exact .inl rfl
  | cons c cs ih =>
    rw [normalizeFraction]
    cases h : normalizedTime? (c :: cs) with
    | some x' => exact .inr ⟨[], c :: cs, x', rfl, h, rfl⟩
    | none =>
      rcases ih with ih | ⟨k, x, x', rfl, hx, ih⟩
      · exact .inl (by rw [ih]; rfl)
      · exact .inr ⟨c :: k, x, x', rfl, hx, by rw [ih]; rfl⟩

/-! ## Octets of a time -/

theorem toNat_lt_of_isDigit {c : Char} (h : isDigit c = true) : c.toNat < 0x80 := by
  have := toNat_of_isDigit h
  omega

theorem octets_fixedDecimal (width n : Nat) :
    octets (fixedDecimal width n) = fixedDecimal width n :=
  octets_of_ascii fun _ hc => toNat_lt_of_isDigit (isDigit_of_mem_fixedDecimal hc)

theorem octets_colon (cs : List Char) : octets (':' :: cs) = ':' :: octets cs :=
  octets_cons_of_ascii (by decide) cs

theorem octets_point (cs : List Char) : octets ('.' :: cs) = '.' :: octets cs :=
  octets_cons_of_ascii (by decide) cs

theorem octets_T (cs : List Char) : octets ('T' :: cs) = 'T' :: octets cs :=
  octets_cons_of_ascii (by decide) cs

/-- Octets of characters that begin no offset begin none. -/
theorem startsOffset_of_mem_octets {cs : List Char} (h : ∀ c ∈ cs, startsOffset c = false) :
    ∀ o ∈ octets cs, startsOffset o = false := by
  intro o ho
  by_contra hstart
  rw [Bool.not_eq_false] at hstart
  have hascii : o.toNat < 0x80 := by
    rcases startsOffset_cases hstart with rfl | rfl | rfl <;> decide
  rw [h o (mem_of_mem_octets ho hascii)] at hstart
  cases hstart

theorem startsOffset_of_isDecimalDigit {c : Char} (h : isDecimalDigit c = true) :
    startsOffset c = false := by
  by_contra hstart
  rw [Bool.not_eq_false] at hstart
  rcases startsOffset_cases hstart with rfl | rfl | rfl <;> exact absurd h (by decide)

/-- No offset begins in a time. -/
theorem startsOffset_of_mem_withFraction (t : WrittenTime) {ds : List Char}
    (hds : ∀ c ∈ ds, isDecimalDigit c = true) :
    ∀ o ∈ octets (t.withFraction ds), startsOffset o = false := by
  have hdecimals (cs : List Char) (h : ∀ c ∈ cs, isDecimalDigit c = true) :
    ∀ c ∈ cs, startsOffset c = false := fun c hc => startsOffset_of_isDecimalDigit (h c hc)
  have hfields := t.isDecimalDigit_of_mem
  simp only [List.forall_mem_append] at hfields
  apply startsOffset_of_mem_octets
  simp only [WrittenTime.withFraction, List.forall_mem_append, List.forall_mem_cons]
  exact ⟨hdecimals _ hfields.1.1, rfl, hdecimals _ hfields.1.2, rfl, hdecimals _ hfields.2, rfl,
    hdecimals _ hds⟩

/-- An offset begins with its sign in octets too. -/
theorem startsOffset_head?_octets {z : List Char} (h : ∀ c ∈ z.head?, c = '+' ∨ c = '-') :
    ∀ o ∈ (octets z).head?, startsOffset o = true := by
  cases z with
  | nil => simp
  | cons c z =>
    rcases h c rfl with rfl | rfl
    all_goals
      rw [octets_cons_of_ascii (by decide)]
      rintro _ ⟨⟩
      rfl

/-! ## The fraction of the time itself -/

/-- A field of a clock that two characters stand for is their number. -/
theorem exists_of_readFields? {count : Nat} {colons : Option Bool} {room : Nat} {f s : List Char}
    {clock : Clock} (hf : f.length = 2)
    (h : readFields? (count + 1) colons room (octets f ++ s) = some clock) :
    ∃ n < 100, f = fixedDecimal 2 n := by
  rw [readFields?_succ] at h
  obtain ⟨⟨n, r⟩, hdigits, -⟩ := Option.bind_eq_some_iff.1 h
  obtain ⟨ds, hds, hlength, hall, -⟩ := exists_of_readDigits hdigits
  have hoctets := length_le_length_octets f
  obtain ⟨f', rfl⟩ := exists_of_octets_append_eq (fun c hc => toNat_lt_of_isDigit (hall c hc)) hds
    (by omega)
  obtain rfl : f' = [] := by
    rw [List.length_append] at hf
    exact List.length_eq_zero_iff.1 (by omega)
  rw [List.append_nil]
  exact ⟨_, Digits.value_lt ⟨ds, hlength, hall⟩, Digits.chars_eq ⟨ds, hlength, hall⟩⟩

/-- A fraction is read the same when it is brought to six digits. -/
theorem readFraction?_sixDigits {ds r : List Char} {clock : Clock}
    (h : readFraction? (octets ds).length (octets ds ++ r) = some clock) :
    ∃ μ < 1000000, sixDigits ds = fixedDecimal 6 μ ∧ clock.fields = [] ∧
      clock.microsecond = μ := by
  obtain ⟨⟨n, r'⟩, hdigits, hclock⟩ := Option.bind_eq_some_iff.1 h
  obtain ⟨es, hes, hlength, hall, rfl⟩ := readDigits_eq_some_iff.1 hdigits
  obtain rfl := Option.some.inj hclock
  have hascii : ∀ c ∈ es, c.toNat < 0x80 := fun c hc => toNat_lt_of_isDigit (hall c hc)
  obtain ⟨ds', rfl⟩ := exists_of_octets_append_eq hascii hes (by omega)
  -- the reader took all the digits or six of them
  have hsix : sixDigits (es ++ ds') = sixDigits es := by
    have hoctets := length_le_length_octets ds'
    rw [octets_append, octets_of_ascii hascii, List.length_append] at hlength
    by_cases hfull : es.length = 6
    · rw [sixDigits, sixDigits, List.take_left' hfull, List.take_of_length_le (by omega),
        List.length_append, hfull, Nat.sub_eq_zero_of_le (Nat.le_add_right 6 _)]
    · obtain rfl : ds' = [] := List.length_eq_zero_iff.1 (by omega)
      rw [List.append_nil]
  refine ⟨ofDigits (sixDigits es), ofDigits_sixDigits_lt hall, ?_, rfl, ?_⟩
  · rw [hsix]
    exact sixDigits_eq hall
  · rw [ofDigits_sixDigits (by omega), hlength]
    rfl

section WithFraction
variable (t : WrittenTime) {ds r : List Char} {clock : Clock} (hds : ds ≠ [])
include hds

/-- A time with a fraction is read as three numbers and the fraction. -/
theorem exists_of_readClock?_withFraction
    (h : readClock? (octets (t.withFraction ds)).length (octets (t.withFraction ds) ++ r) =
      some clock) :
    ∃ hh < 100, ∃ mm < 100, ∃ ss < 100,
      (∀ ds, octets (t.withFraction ds) = secondsText hh mm ss ++ '.' :: octets ds) ∧ ∃ rest,
        readFraction? (octets ds).length (octets ds ++ r) = some rest ∧
        clock = { rest with fields := hh :: mm :: ss :: rest.fields } := by
  obtain ⟨hour, minute, second, hlhour, hlminute, hlsecond, _⟩ := t
  have htext (ds : List Char) : octets (hour ++ ':' :: (minute ++ ':' :: (second ++ '.' :: ds))) =
      octets hour ++ ':' :: (octets minute ++ ':' :: (octets second ++ '.' :: octets ds)) := by
    simp [octets_colon, octets_point]
  simp only [WrittenTime.withFraction, htext] at h ⊢
  obtain ⟨room, hroom⟩ : ∃ room, room = (octets hour ++ ':' :: (octets minute ++ ':' ::
    (octets second ++ '.' :: octets ds))).length := ⟨_, rfl⟩
  have hten : 10 ≤ room := by
    have hdigits := List.length_pos_iff.2 hds
    have hchars := length_le_length_octets (hour ++ ':' :: (minute ++ ':' :: (second ++ '.' :: ds)))
    rw [htext] at hchars
    simp only [List.length_append, List.length_cons] at hchars hroom
    omega
  rw [← hroom, readClock?] at h
  simp only [List.append_assoc, List.cons_append] at h
  obtain ⟨hh, hhour, rfl⟩ := exists_of_readFields? hlhour h
  rw [octets_fixedDecimal, readFields?_colon hhour (show 3 < room by omega) (by simp)] at h
  obtain ⟨c₁, h₁, rfl⟩ := Option.map_eq_some_iff.1 h
  obtain ⟨mm, hminute, rfl⟩ := exists_of_readFields? hlminute h₁
  rw [octets_fixedDecimal, readFields?_colon hminute (show 3 < room - 3 by omega) (by simp)] at h₁
  obtain ⟨c₂, h₂, rfl⟩ := Option.map_eq_some_iff.1 h₁
  obtain ⟨ss, hsecond, rfl⟩ := exists_of_readFields? hlsecond h₂
  rw [octets_fixedDecimal, readFields?_point hsecond (show 3 < room - 3 - 3 by omega)] at h₂
  obtain ⟨rest, hrest, rfl⟩ := Option.map_eq_some_iff.1 h₂
  have hleft : room - 3 - 3 - 3 = (octets ds).length := by
    simp only [octets_fixedDecimal, List.length_append, List.length_cons, length_fixedDecimal]
      at hroom
    omega
  rw [hleft] at hrest
  refine ⟨hh, hhour, mm, hminute, ss, hsecond, fun ds => ?_, rest, hrest, rfl⟩
  simp [octets_fixedDecimal, secondsText]

/-- A clock is read the same when its fraction is brought to six digits. -/
theorem readClock?_sixDigits (hr : EndsDigits r)
    (h : readClock? (octets (t.withFraction ds)).length (octets (t.withFraction ds) ++ r) =
      some clock) :
    readClock? (octets (t.withFraction (sixDigits ds))).length
      (octets (t.withFraction (sixDigits ds)) ++ r) =
      some { clock with overrun := front r ≠ '\x00' } := by
  obtain ⟨hh, hhour, mm, hminute, ss, hsecond, htext, rest, hrest, rfl⟩ :=
    exists_of_readClock?_withFraction t hds h
  obtain ⟨μ, hμ, hsix, hfields, hmicro⟩ := readFraction?_sixDigits hrest
  have hread := readClock?_fraction hhour hminute hsecond hμ hr
  rw [htext, hsix, octets_fixedDecimal, hfields, hmicro]
  simpa using hread

end WithFraction

/-- A time is read the same when its fraction is brought to six digits. -/
theorem readTime?_sixDigits (w : WrittenTime) {ds z : List Char} {t : TimeOfDay × Option Offset}
    (hdigits : ∀ c ∈ ds, isDecimalDigit c = true) (hds : ds ≠ [])
    (hz : ∀ c ∈ z.head?, c = '+' ∨ c = '-')
    (h : readTime? (octets (w.withFraction (ds ++ z))) = some t) :
    readTime? (octets (w.withFraction (sixDigits ds ++ z))) = some t := by
  have hclock := startsOffset_of_mem_withFraction w hdigits
  have hclock' := startsOffset_of_mem_withFraction w
    (forall_mem_sixDigits (by decide) hdigits)
  have hzone := startsOffset_head?_octets hz
  have hend : EndsDigits (octets z) := by
    intro c hc
    rcases startsOffset_cases (hzone c hc) with rfl | rfl | rfl <;> rfl
  rw [w.withFraction_append, octets_append] at h ⊢
  obtain ⟨clock, hread, hoffset, htime⟩ := (readTime?_eq_some_iff hclock hzone).1 h
  refine (readTime?_eq_some_iff hclock' hzone).2
    ⟨_, readClock?_sixDigits w hds hend hread, ?_, htime⟩
  cases hz : octets z with
  | nil =>
    rw [hz, readZone?] at hoffset
    split at hoffset
    · cases hoffset
    · exact hoffset
  | cons c r =>
    rw [hz] at hoffset
    rw [readZone?_cons _ clock.overrun]
    exact hoffset

/-! ## Fractions behind the time -/

theorem endsClock_T (r : List Char) : EndsClock ('T' :: r) := endsClock_cons (by decide) r

/-- What a time looks like behind its clock is not read, so it is the same when a fraction there is
brought to six digits. -/
theorem readTime?_sixDigits_behind (w : WrittenTime) {k ds z : List Char}
    {t : TimeOfDay × Option Offset} (hdigits : ∀ c ∈ ds, isDecimalDigit c = true)
    (hz : ∀ c ∈ z.head?, c = '+' ∨ c = '-')
    (h : readTime? (octets (k ++ 'T' :: w.withFraction (ds ++ z))) = some t) :
    readTime? (octets (k ++ 'T' :: w.withFraction (sixDigits ds ++ z))) = some t := by
  rw [octets_append, octets_T] at h ⊢
  by_cases hstart : ∃ o ∈ octets k, startsOffset o = true
  · exact (readTime?_behind_offset hstart (endsClock_T _) (endsClock_T _) h).2
  · have hclock (ds : List Char) (hds : ∀ c ∈ ds, isDecimalDigit c = true) :
        ∀ o ∈ octets k ++ 'T' :: octets (w.withFraction ds), startsOffset o = false := by
      refine List.forall_mem_append.2 ⟨fun o ho => ?_, List.forall_mem_cons.2
        ⟨rfl, startsOffset_of_mem_withFraction w hds⟩⟩
      by_contra hne
      exact hstart ⟨o, ho, by simpa using hne⟩
    have hsplit (ds : List Char) : octets k ++ 'T' :: octets (w.withFraction (ds ++ z)) =
        octets k ++ 'T' :: octets (w.withFraction ds) ++ octets z := by
      rw [w.withFraction_append, octets_append, List.append_assoc, List.cons_append]
    have hlength : 2 ≤ ('T' :: octets (w.withFraction ds)).length := by
      have hchars := length_le_length_octets (w.withFraction ds)
      rw [WrittenTime.withFraction, List.length_append, w.length_hour] at hchars
      rw [WrittenTime.withFraction, List.length_cons]
      omega
    rw [hsplit] at h ⊢
    exact readTime?_between (hclock ds hdigits)
      (hclock _ (forall_mem_sixDigits (by decide) hdigits)) (startsOffset_head?_octets hz)
      (endsClock_T _) (endsClock_T _) hlength h

/-! ## Timestamps -/

/-- Where a `T` stands in a text that has none at its front. -/
theorem append_T_cases {k a x s : List Char} {c : Char} (ha : 'T' ∉ a)
    (h : k ++ 'T' :: x = a ++ c :: s) :
    (k = a ∧ c = 'T' ∧ s = x) ∨ ∃ k', k = a ++ c :: k' ∧ s = k' ++ 'T' :: x := by
  induction a generalizing k with
  | nil =>
    cases k with
    | nil =>
      obtain ⟨rfl, rfl⟩ := List.cons.inj h
      exact .inl ⟨rfl, rfl, rfl⟩
    | cons d k =>
      obtain ⟨rfl, rfl⟩ := List.cons.inj h
      exact .inr ⟨k, rfl, rfl⟩
  | cons d a ih =>
    rw [List.mem_cons, not_or] at ha
    cases k with
    | nil => exact absurd (List.cons.inj h).1 ha.1
    | cons e k =>
      obtain ⟨rfl, hbehind⟩ := List.cons.inj h
      rcases ih ha.2 hbehind with ⟨rfl, rfl, rfl⟩ | ⟨k', rfl, rfl⟩
      · exact .inl ⟨rfl, rfl, rfl⟩
      · exact .inr ⟨k', rfl, rfl⟩

/-- What stands in front of a character that is no digit holds the two digits that a time begins
with. -/
theorem two_le_length_of_readTime? {k y : List Char} {c : Char} {t : TimeOfDay × Option Offset}
    (hc : isDigit c = false) (h : readTime? (octets (k ++ c :: y)) = some t) : 2 ≤ k.length := by
  obtain ⟨ds, r, hds, hlength, hall⟩ := exists_of_readTime? h
  obtain ⟨s, hs, -⟩ :=
    exists_of_octets_eq_append (fun c hc => toNat_lt_of_isDigit (hall c hc)) hds
  rw [← hlength]
  by_contra hshort
  have hmem : c ∈ ds := by
    have hprefix : k ++ [c] <+: ds := by
      refine List.prefix_of_prefix_length_le ⟨y, ?_⟩ ⟨s, hs.symm⟩ ?_
      · rw [List.append_assoc, List.singleton_append]
      · rw [List.length_append, List.length_singleton]
        omega
    exact hprefix.subset (by simp)
  rw [hall c hmem] at hc
  cases hc

/-- A timestamp that is read is read the same when its fraction is normalized. -/
theorem readExact?_normalizeFraction {cs : List Char} {m : Moment} (h : readExact? cs = some m) :
    readExact? (normalizeFraction cs) = some m := by
  rcases exists_of_normalizeFraction cs with hsame | ⟨k, x, x', rfl, hx, hnormal⟩
  · rw [hsame, h]
  obtain ⟨w, ds, z, rfl, rfl, hdigits, hds, hz⟩ := exists_of_normalizedTime? hx
  rw [hnormal]
  rcases exists_of_readExact? h with ⟨-, hdate⟩ | ⟨a, c, s, hcs, ha, htime, hother⟩
  · exact absurd (hdate 'T' (by simp)) (by decide)
  have hT : 'T' ∉ a := fun hmem => absurd (ha 'T' hmem) (by decide)
  rcases append_T_cases hT hcs with ⟨rfl, rfl, rfl⟩ | ⟨k', rfl, rfl⟩
  · -- the `T` stands between date and time
    have hcolon (r : List Char) : EndsDigits (octets (':' :: r)) := by
      rw [octets_colon]
      rintro _ ⟨⟩
      rfl
    have hread := hother w.hour _ (':' :: (w.minute ++ ':' :: (w.second ++ '.' ::
      (sixDigits ds ++ z)))) rfl (Nat.le_of_eq w.length_hour.symm) (hcolon _) (hcolon _)
    rw [WrittenTime.withFraction, hread]
    exact congrArg _ (readTime?_sixDigits w hdigits hds hz htime)
  · have hT (r : List Char) : EndsDigits (octets ('T' :: r)) := by
      rw [octets_T]
      exact (endsClock_T _).endsDigits
    have hk := two_le_length_of_readTime? (by decide) htime
    have hread := hother k' _ ('T' :: w.withFraction (sixDigits ds ++ z)) rfl hk (hT _) (hT _)
    rw [List.append_assoc, List.cons_append, hread]
    exact congrArg _ (readTime?_sixDigits_behind w hdigits hz htime)

/-- Behind a date and a separator, a final letter is expanded to an offset of the time. -/
theorem readExact?_expandZulu_concat {a k : List Char} {c d : Char} {m : Moment}
    (hc : c = 'Z' ∨ c = 'z') (htime : readTime? (octets (k ++ [c])) = some (m.time, m.offset))
    (hother : ∀ k' y y', k ++ [c] = k' ++ y → 2 ≤ k'.length → EndsDigits (octets y) →
      EndsDigits (octets y') → readExact? (a ++ d :: (k' ++ y')) =
        (readTime? (octets (k' ++ y'))).map fun t => ⟨m.date, t.1, t.2⟩) :
    readTime? (octets k ++ [c]) = some (m.time, m.offset) ∧
      readExact? (expandZulu (a ++ d :: (k ++ [c]))) =
        (readTime? (octets k ++ "+00:00".toList)).map fun t => ⟨m.date, t.1, t.2⟩ := by
  have hascii : octets [c] = [c] := by
    rcases hc with rfl | rfl <;> rfl
  have hzero : octets "+00:00".toList = "+00:00".toList := rfl
  have hletter : EndsDigits (octets [c]) := by
    rw [hascii]
    exact (endsClock_zulu hc []).endsDigits
  have hsign : EndsDigits (octets "+00:00".toList) := by
    rw [hzero]
    exact endsClock_plus.endsDigits
  have hk : 2 ≤ k.length := by
    refine two_le_length_of_readTime? ?_ htime
    rcases hc with rfl | rfl <;> rfl
  have hread := hother k _ "+00:00".toList rfl hk hletter hsign
  have hcs : a ++ d :: (k ++ [c]) = (a ++ d :: k) ++ [c] := by simp
  rw [octets_append, hascii] at htime
  rw [octets_append, hzero] at hread
  rw [hcs, expandZulu_concat hc, List.append_assoc, List.cons_append, hread]
  exact ⟨htime, rfl⟩

/-- A timestamp that is read is read the same when a final letter is expanded, unless the letter is
`z` and the reader saw no offset; then it held the character U+0000, and has the offset of no
length. -/
theorem readExact?_expandZulu {cs : List Char} {m : Moment} (h : readExact? cs = some m) :
    (cs.getLast? ≠ some 'z' ∨ m.offset ≠ none → readExact? (expandZulu cs) = some m) ∧
    (cs.getLast? = some 'z' → m.offset = none →
      '\x00' ∈ cs ∧ readExact? (expandZulu cs) = some { m with offset := some .utc }) := by
  by_cases hlast : ∀ c ∈ cs.getLast?, c ≠ 'Z' ∧ c ≠ 'z'
  · rw [expandZulu_eq_self hlast]
    exact ⟨fun _ => h, fun hz => absurd rfl (hlast 'z' hz).2⟩
  obtain ⟨c, hcs, hc⟩ : ∃ c, cs.getLast? = some c ∧ (c = 'Z' ∨ c = 'z') := by
    by_contra hnone
    refine hlast fun c hc => ⟨fun hZ => hnone ⟨c, hc, .inl hZ⟩, fun hz => hnone ⟨c, hc, .inr hz⟩⟩
  rcases exists_of_readExact? h with ⟨-, hdate⟩ | ⟨a, d, s, rfl, -, htime, hother⟩
  · have hdate := hdate c (List.mem_of_getLast? hcs)
    rcases hc with rfl | rfl <;> cases hdate
  rcases List.eq_nil_or_concat s with rfl | ⟨k, e, hs⟩
  · cases htime
  obtain rfl : s = k ++ [e] := by rw [hs, List.concat_eq_append]
  obtain rfl : e = c := by
    have hconcat : a ++ d :: (k ++ [e]) = (a ++ d :: k) ++ [e] := by simp
    rw [hconcat, List.getLast?_concat] at hcs
    exact Option.some.inj hcs
  obtain ⟨htime, hread⟩ := readExact?_expandZulu_concat hc htime hother
  obtain ⟨hsame, hutc⟩ := readTime?_expanded hc htime
  rw [hcs, hread]
  constructor
  · intro hcond
    rw [hsame (hcond.imp_left fun hz => hc.resolve_right fun h => hz (congrArg some h))]
    rfl
  · intro hz hnone
    obtain ⟨hnul, hread⟩ := hutc (Option.some.inj hz) hnone
    rw [hread]
    refine ⟨?_, rfl⟩
    have hmem := mem_of_mem_octets hnul (by decide)
    simp [hmem]

/-- A timestamp that can be read as it is is read the same once it is repaired. Only one that ends
in `z` and was read without an offset, which takes the character U+0000 in it, is in universal time
then. -/
theorem read?_of_readExact? {cs : List Char} {m : Moment} (h : readExact? cs = some m) :
    (cs.getLast? ≠ some 'z' ∨ m.offset ≠ none → read? cs = some m) ∧
    (cs.getLast? = some 'z' → m.offset = none →
      '\x00' ∈ cs ∧ read? cs = some { m with offset := some .utc }) := by
  obtain ⟨hsame, hutc⟩ := readExact?_expandZulu h
  refine ⟨fun hcond => readExact?_normalizeFraction (hsame hcond), fun hz hnone => ?_⟩
  obtain ⟨hnul, hread⟩ := hutc hz hnone
  exact ⟨hnul, readExact?_normalizeFraction hread⟩

/-- Half past ten, without an offset. -/
def halfPastTen (microsecond : Nat) (h : microsecond < 1000000) : Moment :=
  ⟨(Date.of? 2024 1 15).get rfl,
    { (TimeOfDay.of? 10 30 0 0).get rfl with microsecond, microsecond_lt := h }, none⟩

/-- Both repairs are made to this text, and change nothing. -/
theorem read?_zuluFraction :
    readExact? "2024-01-15T10:30:00.5Z".toList =
      some { halfPastTen 500000 (by decide) with offset := some .utc } ∧
    read? "2024-01-15T10:30:00.5Z".toList =
      some { halfPastTen 500000 (by decide) with offset := some .utc } := by
  have hread : readExact? "2024-01-15T10:30:00.5Z".toList =
    some { halfPastTen 500000 (by decide) with offset := some .utc } := rfl
  exact ⟨hread, (read?_of_readExact? hread).1 (.inl (by decide))⟩

/-- Behind U+0000 the reader does not see the final letter, which the repair makes an offset. -/
theorem not_forall_read?_eq_readExact? : ¬ ∀ (cs : List Char) (m : Moment),
    trimChars cs = cs → readExact? cs = some m → read? cs = some m := by
  intro h
  have hread := h "2024-01-15T10:30:00.123456\x00z".toList (halfPastTen 123456 (by decide)) rfl rfl
  have hutc : read? "2024-01-15T10:30:00.123456\x00z".toList =
    some { halfPastTen 123456 (by decide) with offset := some .utc } := rfl
  rw [hutc] at hread
  cases hread

end RecordProjection.Timestamp
