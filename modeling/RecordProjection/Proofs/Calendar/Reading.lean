import Mathlib.Data.List.TakeWhile
import RecordProjection.Calendar.Timestamp
import RecordProjection.Proofs.Number.FixedDecimal

/-!
# Clocks and their offsets

A time is read in two steps: a clock, as far as the first character that begins an offset, and the
offset behind it. Whatever the clock leaves unread matters only when no offset follows, and what
stands behind a clock or an offset is not looked at beyond the octet that ends it, so another text
may stand there.

## Main definitions

* `Timestamp.EndsDigits`, `Timestamp.EndsClock` : no digit goes on, no clock goes on.
* `Timestamp.StopsAtEnd` : a reader of clocks gives the same whatever ends the clock.
* `Timestamp.readZone?` : reading what stands behind a clock.
-/
namespace RecordProjection.Timestamp

open Text Number

/-! ## What ends a clock -/

/-- No digit stands at the front of a text. -/
def EndsDigits (r : List Char) : Prop := ∀ c ∈ r.head?, isDigit c = false

theorem EndsDigits.dropWhile_eq {r : List Char} (h : EndsDigits r) : r.dropWhile isDigit = r := by
  cases r with
  | nil => rfl
  | cons c r => exact List.dropWhile_cons_of_neg (by simp [h c rfl])

theorem EndsDigits.takeWhile_eq {r : List Char} (h : EndsDigits r) : r.takeWhile isDigit = [] := by
  cases r with
  | nil => rfl
  | cons c r => exact List.takeWhile_cons_of_neg (by simp [h c rfl])

/-- A text that is not empty and begins with no digit, no separator of a clock and not with what
stands for the end. -/
structure EndsClock (r : List Char) : Prop where
  digit : isDigit (front r) = false
  colon : front r ≠ ':'
  point : front r ≠ '.'
  comma : front r ≠ ','
  nul : front r ≠ '\x00'

theorem endsClock_cons {c : Char}
    (h : isDigit c = false ∧ c ≠ ':' ∧ c ≠ '.' ∧ c ≠ ',' ∧ c ≠ '\x00') (r : List Char) :
    EndsClock (c :: r) :=
  ⟨h.1, h.2.1, h.2.2.1, h.2.2.2.1, h.2.2.2.2⟩

namespace EndsClock
variable {y : List Char} (hy : EndsClock y)
include hy

theorem endsDigits : EndsDigits y := by
  have hdigit := hy.digit
  cases y with
  | nil => simp [EndsDigits]
  | cons c y =>
    rintro _ ⟨⟩
    exact hdigit

theorem readDigits_eq_none (count sum : Nat) : readDigits (count + 1) sum y = none := by
  cases y with
  | nil => rfl
  | cons c y => exact if_neg (by simpa [front] using hy.digit)

/-- Digits that are read before the end of a clock lie in front of it. -/
theorem exists_of_readDigits {count sum n : Nat} {q r : List Char}
    (h : readDigits count sum (q ++ y) = some (n, r)) : ∃ q', r = q' ++ y ∧
      q.length = count + q'.length ∧ (∀ c ∈ q', c ∈ q) ∧
      ∀ y', readDigits count sum (q ++ y') = some (n, q' ++ y') := by
  obtain ⟨ds, hds, hlength, hdigits, hn⟩ := readDigits_eq_some_iff.1 h
  rcases List.append_eq_append_iff.1 hds with ⟨e, rfl, hr⟩ | ⟨q', rfl, rfl⟩
  · -- the digits go no further than `q`, since no digit stands behind it
    obtain rfl : e = [] := by
      cases e with
      | nil => rfl
      | cons c e =>
        have hc := hy.endsDigits c (by rw [hr]; rfl)
        rw [hdigits c (by simp)] at hc
        cases hc
    refine ⟨[], hr.symm, by simpa using hlength, by simp, fun y' => ?_⟩
    exact readDigits_eq_some_iff.2 ⟨q, by simp, by simpa using hlength, by simpa using hdigits,
      by simpa using hn⟩
  · refine ⟨q', rfl, by rw [List.length_append, hlength],
      fun c hc => List.mem_append_right ds hc, fun y' => ?_⟩
    exact readDigits_eq_some_iff.2 ⟨ds, List.append_assoc .., hlength, hdigits, hn⟩

theorem dropWhile_append (q : List Char) :
    (q ++ y).dropWhile isDigit = q.dropWhile isDigit ++ y := by
  rw [List.dropWhile_append]
  split
  · next h => rw [List.isEmpty_iff.1 h, hy.endsDigits.dropWhile_eq, List.nil_append]
  · rfl

theorem front_append_eq_nul_iff (q : List Char) :
    front (q ++ y) = '\x00' ↔ q.head? = some '\x00' := by
  cases q with
  | nil => simpa using hy.nul
  | cons c q => simp [front]

end EndsClock

/-! ## Clocks -/

/-- A reader of clocks within a given room gives the same whatever ends the clock, in the same room
or where the clock does not fill its room. If nothing is left unread behind the clock, it met what
stands for the end. -/
def StopsAtEnd (read : (room : Nat) → List Char → Option Clock) : Prop :=
  ∀ {q y : List Char} {room : Nat} {clock : Clock}, read room (q ++ y) = some clock →
    EndsClock y → q.length ≤ room →
      (clock.overrun = false → '\x00' ∈ q) ∧
      ∀ {y' : List Char} (room' : Nat), EndsClock y' → q.length ≤ room' →
        (room = room' ∨ q.length < room ∧ (q.length + 2 ≤ room ∨ clock.overrun = false)) →
        read room' (q ++ y') = some clock ∧ (room = room' ∨ 2 ≤ q.length)

/-- Behind a separator there is less room. -/
theorem StopsAtEnd.behind {read : (room : Nat) → List Char → Option Clock} (hstops : StopsAtEnd read)
    (c : Char) {q y : List Char} {room : Nat} {clock : Clock}
    (h : read (room + 2 - 3) (q ++ y) = some clock) (hy : EndsClock y)
    (hroom : q.length + 1 ≤ room) (hmore : ¬ room + 2 ≤ 3) :
    (clock.overrun = false → '\x00' ∈ c :: q) ∧
    ∀ {y' : List Char} (room' : Nat), EndsClock y' → q.length + 1 ≤ room' →
      (room = room' ∨ q.length + 1 < room ∧ (q.length + 1 + 2 ≤ room ∨ clock.overrun = false)) →
      read (room' + 2 - 3) (q ++ y') = some clock ∧ ¬ room' + 2 ≤ 3 ∧
        (room = room' ∨ 2 ≤ q.length + 1) := by
  obtain ⟨hnul, hread⟩ := hstops h hy (by omega)
  refine ⟨fun hfalse => List.mem_cons_of_mem c (hnul hfalse), fun room' hy' hroom' hrooms => ?_⟩
  obtain ⟨hread, hlength⟩ := hread (room' + 2 - 3) hy' (by omega)
    (hrooms.imp (fun h => by omega) fun h => ⟨by omega, h.2.imp_left fun h => by omega⟩)
  exact ⟨hread, by omega, by omega⟩

theorem stopsAtEnd_readFraction : StopsAtEnd readFraction? := by
  intro q y room clock h hy hroom
  obtain ⟨⟨n, r⟩, hdigits, hclock⟩ := Option.bind_eq_some_iff.1 h
  obtain ⟨q', rfl, hlength, hmem, hdigits'⟩ := hy.exists_of_readDigits hdigits
  obtain rfl := Option.some.inj hclock
  refine ⟨fun hfalse => hmem _ ?_, fun {y'} room' hy' hroom' hrooms => ?_⟩
  · rw [decide_eq_false_iff_not, not_not, hy.dropWhile_append, hy.front_append_eq_nul_iff] at hfalse
    exact (List.dropWhile_suffix isDigit).subset (List.mem_of_mem_head? hfalse)
  · have hoverrun : (front ((q' ++ y).dropWhile isDigit) ≠ '\x00') =
        (front ((q' ++ y').dropWhile isDigit) ≠ '\x00') := by
      rw [hy.dropWhile_append, hy'.dropWhile_append, ne_eq, ne_eq, hy.front_append_eq_nul_iff,
        hy'.front_append_eq_nul_iff]
    -- where the clock does not fill its room all six digits are there
    have hcount : min 6 room' = min 6 room ∧ (room = room' ∨ 2 ≤ q.length) := by omega
    refine ⟨?_, hcount.2⟩
    simp only [readFraction?, hcount.1, hdigits', Option.bind_eq_bind, Option.bind_some, hoverrun]

/-- What is read behind the digits of a field, where `c` stands. -/
def readOn? (count : Nat) (colons : Bool) (room : Nat) (s : List Char) : Option Clock :=
  if room ≤ 3 then some ⟨[], 0, front s ≠ '\x00'⟩
  else if colons && front s = ':' then readFields? count (some colons) (room - 3) s.tail
  else if front s = '.' || front s = ',' then readFraction? (room - 3) s.tail
  else if !colons then readFields? count (some colons) (room - 2) s
  else none

theorem readOn?_cons (count : Nat) (colons : Bool) (room : Nat) (c : Char) (s : List Char) :
    readOn? count colons room (c :: s) =
      if room ≤ 3 then some ⟨[], 0, c ≠ '\x00'⟩
      else if colons && c = ':' then readFields? count (some colons) (room - 3) s
      else if c = '.' || c = ',' then readFraction? (room - 3) s
      else if !colons then readFields? count (some colons) (room - 2) (c :: s)
      else none := rfl

theorem readFields?_succ (count : Nat) (colons : Option Bool) (room : Nat) (s : List Char) :
    readFields? (count + 1) colons room s = (readDigits 2 0 s).bind fun p =>
      (readOn? count (colons.getD (front p.2 = ':')) room p.2).map
        fun rest => { rest with fields := p.1 :: rest.fields } := by
  rw [readFields?]
  refine congrArg _ (funext fun p => ?_)
  simp only [readOn?, Option.map_eq_bind]
  split_ifs <;> rfl

theorem readFields?_eq_none {y : List Char} (hy : EndsClock y) (count : Nat)
    (colons : Option Bool) {room : Nat} (hroom : 0 < room) :
    readFields? count colons room y = none := by
  cases count with
  | zero =>
    obtain ⟨n, hn⟩ : ∃ n, min 6 room = n + 1 := ⟨min 6 room - 1, by omega⟩
    simp [readFields?, readFraction?, hn, hy.readDigits_eq_none]
  | succ count => simp [readFields?_succ, hy.readDigits_eq_none]

/-- A field that the clock ends behind. -/
theorem readOn?_of_endsClock {y : List Char} (hy : EndsClock y) (count : Nat) (colons : Bool)
    (room : Nat) : readOn? count colons room y =
      if room ≤ 3 then some ⟨[], 0, true⟩ else none := by
  rw [readOn?]
  split
  · simp [hy.nul]
  · have hnone := readFields?_eq_none hy count (some colons) (show 0 < room - 2 by omega)
    simp [hy.colon, hy.point, hy.comma, hnone]

/-- What is read behind the digits of a field, in terms of the room that is left there. -/
theorem stopsAtEnd_readOn {count : Nat} (ih : ∀ colons, StopsAtEnd (readFields? count colons))
    (colons : Bool) : StopsAtEnd fun room => readOn? count colons (room + 2) := by
  intro q y room clock h hy hroom
  cases q with
  | nil =>
    simp only [List.nil_append, readOn?_of_endsClock hy] at h
    split at h
    · next hlast =>
      obtain rfl := Option.some.inj h
      refine ⟨by simp, fun {y'} room' hy' hroom' hrooms => ?_⟩
      obtain rfl : room = room' := by
        rcases hrooms with hsame | ⟨-, hmore | htrue⟩
        · exact hsame
        · simp at hmore
          omega
        · cases htrue
      have hread := readOn?_of_endsClock hy' count colons (room + 2)
      rw [if_pos hlast] at hread
      exact ⟨hread, .inl rfl⟩
    · cases h
  | cons c q =>
    simp only [List.length_cons, List.cons_append, readOn?_cons] at h hroom ⊢
    split_ifs at h with hlast hcolon hpoint hplain
    · obtain rfl := Option.some.inj h
      refine ⟨fun hfalse => ?_, fun {y'} room' hy' hroom' hrooms => ?_⟩
      · obtain rfl : c = '\x00' := by simpa using hfalse
        exact List.mem_cons_self
      · obtain rfl : room = room' := by omega
        rw [if_pos hlast]
        exact ⟨rfl, .inl rfl⟩
    · obtain ⟨hnul, hread⟩ := StopsAtEnd.behind (ih _) c h hy hroom hlast
      refine ⟨hnul, fun room' hy' hroom' hrooms => ?_⟩
      obtain ⟨hread, hmore, hlength⟩ := hread room' hy' hroom' hrooms
      rw [if_neg hmore, if_pos hcolon]
      exact ⟨hread, hlength⟩
    · obtain ⟨hnul, hread⟩ :=
        StopsAtEnd.behind stopsAtEnd_readFraction c h hy hroom hlast
      refine ⟨hnul, fun room' hy' hroom' hrooms => ?_⟩
      obtain ⟨hread, hmore, hlength⟩ := hread room' hy' hroom' hrooms
      rw [if_neg hmore, if_neg hcolon, if_pos hpoint]
      exact ⟨hread, hlength⟩
    · rw [← List.cons_append] at h
      obtain ⟨hnul, hread⟩ := ih _ h hy hroom
      refine ⟨hnul, fun room' hy' hroom' hrooms => ?_⟩
      obtain ⟨hread, hlength⟩ := hread room' hy' hroom' hrooms
      rw [List.length_cons] at hlength
      rw [if_neg (by omega), if_neg hcolon, if_neg hpoint, if_pos hplain]
      exact ⟨hread, hlength⟩

theorem stopsAtEnd_readFields (count : Nat) (colons : Option Bool) :
    StopsAtEnd (readFields? count colons) := by
  induction count generalizing colons with
  | zero => exact stopsAtEnd_readFraction
  | succ count ih =>
    intro q y room clock h hy hroom
    rw [readFields?_succ] at h
    obtain ⟨⟨n, r⟩, hdigits, h⟩ := Option.bind_eq_some_iff.1 h
    obtain ⟨rest, hrest, rfl⟩ := Option.map_eq_some_iff.1 h
    obtain ⟨q', rfl, hlength, hmem, hdigits'⟩ := hy.exists_of_readDigits hdigits
    obtain ⟨room, rfl⟩ : ∃ n, room = n + 2 := ⟨room - 2, by omega⟩
    obtain ⟨hnul, hread⟩ := stopsAtEnd_readOn ih _ hrest hy (by omega)
    refine ⟨fun hfalse => hmem _ (hnul hfalse), fun {y'} room' hy' hroom' hrooms => ?_⟩
    obtain ⟨room', rfl⟩ : ∃ n, room' = n + 2 := ⟨room' - 2, by omega⟩
    obtain ⟨hread, hroom⟩ := hread room' hy' (by omega)
      (hrooms.imp (fun h => by omega) fun h => ⟨by omega, h.2.imp_left fun h => by omega⟩)
    have hcolon : (front (q' ++ y) = ':') = (front (q' ++ y') = ':') := by
      cases q' with
      | nil => simp [hy.colon, hy'.colon]
      | cons c q' => rfl
    rw [readFields?_succ, hdigits', Option.bind_some]
    simp only [hcolon] at hread
    exact ⟨congrArg (Option.map _) hread, by omega⟩

/-- Clocks are read alike whatever ends them. -/
theorem stopsAtEnd_readClock : StopsAtEnd readClock? := stopsAtEnd_readFields 3 none

/-! ## Offsets -/

theorem EndsClock.length_pos {y : List Char} (hy : EndsClock y) : 0 < y.length := by
  cases y with
  | nil => exact absurd rfl hy.nul
  | cons c y => exact Nat.succ_pos _

theorem startsOffset_cases {c : Char} (h : startsOffset c = true) : c = '+' ∨ c = '-' ∨ c = 'Z' := by
  simpa [startsOffset, or_assoc] using h

theorem endsClock_of_startsOffset {c : Char} (h : startsOffset c = true) (r : List Char) :
    EndsClock (c :: r) := by
  rcases startsOffset_cases h with rfl | rfl | rfl <;> exact endsClock_cons (by decide) r

/-- An offset is the same whatever stands behind it. -/
theorem readOffset?_behind {negative : Bool} {b y y' : List Char} {o : Offset} (hy : EndsClock y)
    (hy' : EndsClock y') (h : readOffset? negative (b ++ y) = some o) :
    readOffset? negative (b ++ y') = some o := by
  obtain ⟨clock, hclock, ho⟩ := Option.bind_eq_some_iff.1 h
  have hoverrun : clock.overrun = false := by
    by_contra htrue
    simp [htrue] at ho
  have hlength := hy.length_pos
  have hread := (stopsAtEnd_readClock hclock hy (by simp)).2 (b ++ y').length hy' (by simp)
    (.inr ⟨by simpa using hlength, .inr hoverrun⟩)
  rw [readOffset?, hread.1]
  exact ho

/-- The offset that stands behind a clock; `overrun` tells that the clock left something unread,
which is forgiven before an offset. -/
def readZone? (overrun : Bool) : List Char → Option (Option Offset)
  | [] => if overrun then none else some none
  | 'Z' :: behind => if front behind = '\x00' then some (some .utc) else none
  | sign :: behind => (readOffset? (sign = '-') behind).map some

/-- Before an offset it does not matter what the clock left unread. -/
theorem readZone?_cons (overrun overrun' : Bool) (c : Char) (r : List Char) :
    readZone? overrun (c :: r) = readZone? overrun' (c :: r) := by
  by_cases hc : c = 'Z'
  · subst hc
    rfl
  · rw [readZone?, readZone?] <;> simp [hc]

/-- What begins an offset is read as one. -/
theorem readZone?_cons_ne_none {overrun : Bool} {c : Char} {r : List Char} {o : Option Offset}
    (h : readZone? overrun (c :: r) = some o) : o ≠ none := by
  rw [readZone?.eq_def] at h
  split at h
  · next heq => cases heq
  · split at h
    · rw [← Option.some.inj h]
      exact Option.some_ne_none _
    · cases h
  · obtain ⟨p, -, rfl⟩ := Option.map_eq_some_iff.1 h
    exact Option.some_ne_none p

theorem readZone?_behind {overrun overrun' : Bool} {c : Char} {b y y' : List Char}
    {o : Option Offset} (hy : EndsClock y) (hy' : EndsClock y') (hc : startsOffset c = true)
    (h : readZone? overrun (c :: (b ++ y)) = some o) :
    readZone? overrun' (c :: (b ++ y')) = some o := by
  rcases startsOffset_cases hc with rfl | rfl | rfl
  · obtain ⟨p, hp, rfl⟩ := Option.map_eq_some_iff.1 h
    exact Option.map_eq_some_iff.2 ⟨p, readOffset?_behind hy hy' hp, rfl⟩
  · obtain ⟨p, hp, rfl⟩ := Option.map_eq_some_iff.1 h
    exact Option.map_eq_some_iff.2 ⟨p, readOffset?_behind hy hy' hp, rfl⟩
  · simp only [readZone?, hy.front_append_eq_nul_iff] at h
    simp only [readZone?, hy'.front_append_eq_nul_iff]
    exact h

/-! ## Times -/

/-- A time, from its clock and what stands behind it. -/
theorem readTime?_append {q z : List Char} (hq : ∀ c ∈ q, startsOffset c = false)
    (hz : ∀ c ∈ z.head?, startsOffset c = true) : readTime? (q ++ z) =
      (readClock? q.length (q ++ z)).bind fun clock =>
        (readZone? clock.overrun z).bind fun offset =>
          (TimeOfDay.of? clock.hour clock.minute clock.second clock.microsecond).map
            fun time => (time, offset) := by
  have hroom : ((q ++ z).takeWhile fun c => !startsOffset c) = q := by
    have hclock : ∀ c ∈ q, (!startsOffset c) = true := by
      intro c hc
      rw [hq c hc]
      rfl
    rw [List.takeWhile_append_of_pos hclock]
    cases z with
    | nil => simp
    | cons c z => simp [hz c rfl]
  simp only [readTime?, hroom, List.drop_left, Option.bind_eq_bind]
  refine congrArg _ (funext fun clock => ?_)
  have hlast (offset : Option Offset) : ((TimeOfDay.of? clock.hour clock.minute clock.second
      clock.microsecond).bind fun time => some (time, offset)) =
      (TimeOfDay.of? clock.hour clock.minute clock.second clock.microsecond).map
        fun time => (time, offset) := by
    rw [Option.map_eq_bind]
    rfl
  split
  · rw [readZone?]
    split
    · rfl
    · exact hlast none
  · rw [readZone?]
    split
    · exact hlast (some .utc)
    · rfl
  · next sign behind hsign =>
    rw [readZone?]
    · exact congrArg _ (funext hlast)
    · exact hsign

/-- Every text is a clock without the beginning of an offset, and what stands behind it. -/
theorem exists_clock_append (s : List Char) : ∃ q z, s = q ++ z ∧
    (∀ c ∈ q, startsOffset c = false) ∧ ∀ c ∈ z.head?, startsOffset c = true := by
  refine ⟨s.takeWhile fun c => !startsOffset c, s.dropWhile fun c => !startsOffset c,
    List.takeWhile_append_dropWhile.symm, ?_, ?_⟩
  · intro c hc
    simpa using List.mem_takeWhile_imp hc
  · intro c hc
    have h := List.head?_dropWhile_not (fun c => !startsOffset c) s
    rw [Option.mem_def.1 hc] at h
    simpa using h

theorem readTime?_eq_some_iff {q z : List Char} {t : TimeOfDay × Option Offset}
    (hq : ∀ c ∈ q, startsOffset c = false) (hz : ∀ c ∈ z.head?, startsOffset c = true) :
    readTime? (q ++ z) = some t ↔ ∃ clock, readClock? q.length (q ++ z) = some clock ∧
      readZone? clock.overrun z = some t.2 ∧
      TimeOfDay.of? clock.hour clock.minute clock.second clock.microsecond = some t.1 := by
  rw [readTime?_append hq hz]
  simp only [Option.bind_eq_some_iff, Option.map_eq_some_iff]
  constructor
  · rintro ⟨clock, hclock, offset, hzone, time, htime, rfl⟩
    exact ⟨clock, hclock, hzone, htime⟩
  · rintro ⟨clock, hclock, hzone, htime⟩
    exact ⟨clock, hclock, t.2, hzone, t.1, htime, rfl⟩

/-- A time that has the beginning of an offset has an offset, and is the same whatever ends it. -/
theorem readTime?_behind_offset {q y y' : List Char} {t : TimeOfDay × Option Offset}
    (hq : ∃ c ∈ q, startsOffset c = true) (hy : EndsClock y) (hy' : EndsClock y')
    (h : readTime? (q ++ y) = some t) : t.2 ≠ none ∧ readTime? (q ++ y') = some t := by
  obtain ⟨k, z, rfl, hk, hz⟩ := exists_clock_append q
  cases z with
  | nil =>
    obtain ⟨c, hc, hstart⟩ := hq
    rw [List.append_nil] at hc
    rw [hk c hc] at hstart
    cases hstart
  | cons c b =>
    have hc : startsOffset c = true := hz c rfl
    have hhead (r : List Char) : ∀ d ∈ (c :: r).head?, startsOffset d = true := by
      rintro _ ⟨⟩
      exact hc
    rw [List.append_assoc, List.cons_append] at h ⊢
    obtain ⟨clock, hclock, hzone, htime⟩ := (readTime?_eq_some_iff hk (hhead _)).1 h
    refine ⟨readZone?_cons_ne_none hzone, (readTime?_eq_some_iff hk (hhead _)).2
      ⟨clock, ?_, readZone?_behind hy hy' hc hzone, htime⟩⟩
    exact ((stopsAtEnd_readClock hclock (endsClock_of_startsOffset hc _) (Nat.le_refl _)).2 _
      (endsClock_of_startsOffset hc _) (Nat.le_refl _) (.inl rfl)).1

/-- A time in front of an offset is the same whatever stands between the two. -/
theorem readTime?_between {q y y' z : List Char} {t : TimeOfDay × Option Offset}
    (hq : ∀ c ∈ q ++ y, startsOffset c = false) (hq' : ∀ c ∈ q ++ y', startsOffset c = false)
    (hz : ∀ c ∈ z.head?, startsOffset c = true) (hy : EndsClock (y ++ z))
    (hy' : EndsClock (y' ++ z)) (hlength : 2 ≤ y.length) (h : readTime? (q ++ y ++ z) = some t) :
    readTime? (q ++ y' ++ z) = some t := by
  obtain ⟨clock, hclock, hzone, htime⟩ := (readTime?_eq_some_iff hq hz).1 h
  refine (readTime?_eq_some_iff hq' hz).2 ⟨clock, ?_, hzone, htime⟩
  rw [List.append_assoc, List.length_append] at hclock ⊢
  exact ((stopsAtEnd_readClock hclock hy (by omega)).2 _ hy' (by omega)
    (.inr ⟨by omega, .inl (by omega)⟩)).1

/-- A time begins with two digits. -/
theorem exists_of_readTime? {s : List Char} {t : TimeOfDay × Option Offset}
    (h : readTime? s = some t) : ∃ ds r, s = ds ++ r ∧ ds.length = 2 ∧
      ∀ c ∈ ds, isDigit c = true := by
  obtain ⟨clock, hclock, -⟩ := Option.bind_eq_some_iff.1 h
  rw [readClock?, readFields?_succ] at hclock
  obtain ⟨⟨n, r⟩, hdigits, -⟩ := Option.bind_eq_some_iff.1 hclock
  obtain ⟨ds, hds, hlength, hall, -⟩ := readDigits_eq_some_iff.1 hdigits
  exact ⟨ds, r, hds, hlength, hall⟩

end RecordProjection.Timestamp
