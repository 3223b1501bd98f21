import Mathlib.Logic.Function.Iterate
import RecordProjection.Proofs.Shape.Failures
import RecordProjection.Proofs.Shape.Language

/-!
# The descent, round by round

A list of fields is read in rounds. A round takes a comma or a field, and a field has the list in
its parentheses read before it ends. Here a field, a round and a list are functions of whatever
reads the lists behind them, so that it can be said where these begin: always strictly further on in
the text. Hence the descent ends, and a reader that is put in deep enough below it is never asked.

## Main definitions

* `Cursor.Before` : a place strictly further on in the same text.
* `fieldBy`, `roundBy`, `descend` : a field, a round and a list, by what reads the lists behind them.
* `readOn` : the fields that the descent gives, and where it stops.
-/
namespace RecordProjection

open Text Shape

/-- The place `t` lies behind `s` in the same text, and something stands between them. -/
def Cursor.Before (s t : Cursor) : Prop := ∃ cs, cs ≠ [] ∧ s.Spans cs t

namespace Cursor
variable {s t u : Cursor} {cs : List Char}

theorem Before.of_spans (h : s.Before t) (h' : t.Spans cs u) : s.Before u := by
  obtain ⟨ds, hne, hspan⟩ := h
  exact ⟨ds ++ cs, List.append_ne_nil_of_left_ne_nil hne cs, hspan.trans h'⟩

theorem Before.trans (h : s.Before t) (h' : t.Before u) : s.Before u := by
  obtain ⟨cs, -, hspan⟩ := h'
  exact h.of_spans hspan

theorem Spans.before (h : s.Spans cs t) (h' : t.Before u) : s.Before u := by
  obtain ⟨ds, hne, hspan⟩ := h'
  exact ⟨cs ++ ds, List.append_ne_nil_of_right_ne_nil cs hne, h.trans hspan⟩

theorem before_of_cons {c : Char} {r : List Char} (h : s.rest = c :: r) :
    s.Before ⟨s.position + 1, r⟩ :=
  ⟨[c], List.cons_ne_nil c [], h, rfl⟩

theorem Before.length_lt (h : s.Before t) : t.rest.length < s.rest.length := by
  obtain ⟨ds, hne, hspan⟩ := h
  have hpos := List.length_pos_iff.2 hne
  rw [hspan.1, List.length_append]
  omega

end Cursor

namespace Shape

/-! ## One round -/

/-- A way to read on through a list, from a state and a place: the fields up to its end, and the
place where it ends. -/
abbrev ListReader := Awaiting → Cursor → Except SyntaxError (List FieldSpec × Cursor)

/-- A field with the list that was read behind its opening parenthesis, if it is closed there. -/
def closeField (head : FieldHead) (opening : Nat) (list : List FieldSpec × Cursor) :
    Except SyntaxError (FieldSpec × Cursor) :=
  match list.2.rest with
  | ')' :: r => .ok (head.field (some list.1), ⟨list.2.position + 1, r⟩)
  | _ => .error (.unclosedList head.name opening)

/-- The field at a place, where `lists` reads what stands in its parentheses. -/
def fieldBy (lists : ListReader) (s : Cursor) : Except SyntaxError (FieldSpec × Cursor) :=
  match readHead s.skipBlanks with
  | .error e => .error e
  | .ok (head, u) =>
    match u.skipBlanks.rest with
    | '(' :: r =>
      lists .firstField ⟨u.skipBlanks.position + 1, r⟩ >>= closeField head u.skipBlanks.position
    | _ => .ok (head.field none, u.skipBlanks)

/-- What a round comes to: the list ends, or reading goes on behind what the round took. -/
inductive Round
  | ended (stop : Cursor)
  | onwards (fields : List FieldSpec) (awaiting : Awaiting) (next : Cursor)

/-- The round in which a list ends. -/
def endRound (a : Awaiting) (s : Cursor) : Except SyntaxError Round :=
  if a = .fieldAfterComma then .error (.trailingComma s.position) else .ok (.ended s)

/-- One round of reading a list. -/
def roundBy (lists : ListReader) (a : Awaiting) (s : Cursor) : Except SyntaxError Round :=
  match s.skipBlanks.rest with
  | [] => endRound a s.skipBlanks
  | c :: r =>
    if c = ')' then endRound a s.skipBlanks
    else if c = ',' then
      if a = .separator then .ok (.onwards [] .fieldAfterComma ⟨s.skipBlanks.position + 1, r⟩)
      else .error (.missingField s.skipBlanks.position)
    else (fieldBy lists s.skipBlanks).map fun (f, t) => .onwards [f] .separator t

/-- What a list comes to behind a round, where `lists` reads on. -/
def Round.resume (lists : ListReader) : Round → Except SyntaxError (List FieldSpec × Cursor)
  | ended stop => .ok ([], stop)
  | onwards fields a next => (lists a next).map fun (fs, t) => (fields ++ fs, t)

/-- A list whose first round is read here, and all that lies behind this round by `lists`. -/
def descend (lists : ListReader) : ListReader := fun a s =>
  roundBy lists a s >>= Round.resume lists

/-- The fields that the descent reads on from a state and a place, and where it stops. -/
def readOn : ListReader := fun a s => (readFields a s).map fun p => (p.fields, p.stop)

section
variable {lists : ListReader} {a : Awaiting} {s t u : Cursor} {head : FieldHead} {c : Char}
  {r : List Char}

theorem fieldBy_bare (hs : readHead s.skipBlanks = .ok (head, u))
    (hu : ∀ r, u.skipBlanks.rest ≠ '(' :: r) :
    fieldBy lists s = .ok (head.field none, u.skipBlanks) := by
  rw [fieldBy, hs]
  dsimp only
  split
  · next r hr => exact absurd hr (hu r)
  · rfl

theorem fieldBy_opening (hs : readHead s.skipBlanks = .ok (head, u))
    (hu : u.skipBlanks.rest = '(' :: r) :
    fieldBy lists s =
      (lists .firstField ⟨u.skipBlanks.position + 1, r⟩ >>=
        closeField head u.skipBlanks.position) := by
  simp only [fieldBy, hs, hu]

theorem roundBy_of_atEnd (hs : AtEnd s.skipBlanks.rest) :
    roundBy lists a s = endRound a s.skipBlanks := by
  rw [roundBy]
  split
  · rfl
  · next c r hr =>
    obtain rfl : c = ')' := hs c (by rw [hr]; rfl)
    rw [if_pos rfl]

theorem roundBy_comma (hs : s.skipBlanks.rest = ',' :: r) :
    roundBy lists a s =
      if a = .separator then .ok (.onwards [] .fieldAfterComma ⟨s.skipBlanks.position + 1, r⟩)
      else .error (.missingField s.skipBlanks.position) := by
  rw [roundBy, hs]
  dsimp only
  rw [if_neg (by decide), if_pos rfl]

theorem roundBy_field (hs : s.skipBlanks.rest = c :: r) (hparen : c ≠ ')') (hcomma : c ≠ ',') :
    roundBy lists a s =
      (fieldBy lists s.skipBlanks).map fun (f, t) => .onwards [f] .separator t := by
  rw [roundBy, hs]
  dsimp only
  rw [if_neg hparen, if_neg hcomma]

theorem roundBy_bare (hs : readHead s.skipBlanks = .ok (head, u))
    (hu : ∀ r, u.skipBlanks.rest ≠ '(' :: r) :
    roundBy lists a s = .ok (.onwards [head.field none] .separator u.skipBlanks) := by
  obtain ⟨c, r, hr, hparen, hcomma⟩ := exists_of_readHead hs
  rw [← s.skipBlanks_skipBlanks] at hs
  rw [roundBy_field hr hparen hcomma, fieldBy_bare hs hu]
  rfl

theorem roundBy_opening (hs : readHead s.skipBlanks = .ok (head, u))
    (hu : u.skipBlanks.rest = '(' :: r) :
    roundBy lists a s =
      (lists .firstField ⟨u.skipBlanks.position + 1, r⟩ >>=
        closeField head u.skipBlanks.position).map fun (f, t) => .onwards [f] .separator t := by
  obtain ⟨c, r', hr, hparen, hcomma⟩ := exists_of_readHead hs
  rw [← s.skipBlanks_skipBlanks] at hs
  rw [roundBy_field hr hparen hcomma, fieldBy_opening hs hu]

theorem roundBy_listed {m : Cursor} {r' : List Char} {inner : List FieldSpec}
    (hs : readHead s.skipBlanks = .ok (head, u)) (hu : u.skipBlanks.rest = '(' :: r)
    (hi : lists .firstField ⟨u.skipBlanks.position + 1, r⟩ = .ok (inner, m))
    (hm : m.rest = ')' :: r') :
    roundBy lists a s =
      .ok (.onwards [head.field (some inner)] .separator ⟨m.position + 1, r'⟩) := by
  rw [roundBy_opening hs hu, hi, exceptOk_bind, closeField, hm]
  rfl

end

/-! ## The descent goes by rounds -/

section
variable {a : Awaiting} {s t : Cursor} {fs : List FieldSpec} {e : SyntaxError}

theorem readOn_eq_ok_iff : readOn a s = .ok (fs, t) ↔ Reads a s fs t := by
  constructor
  · intro h
    obtain ⟨p, hp, hpair⟩ := exceptMap_eq_ok_iff.1 h
    obtain ⟨rfl, rfl⟩ := Prod.mk.inj hpair
    exact reads_of_readFields hp
  · intro h
    obtain ⟨p, hp, rfl, rfl⟩ := h.exists_readFields
    exact exceptMap_eq_ok_iff.2 ⟨p, hp, rfl⟩

theorem Fails.readOn_eq (h : Fails a s e t) : readOn a s = .error e :=
  exceptMap_eq_error_iff.2 h.readFields_eq

/-- What a round takes stands in front of what is read on behind it. -/
theorem descend_of_onwards {b : Awaiting} {u : Cursor} {gs : List FieldSpec}
    (h : roundBy readOn a s = .ok (.onwards gs b u)) :
    descend readOn a s = (readOn b u).map fun (fs, t) => (gs ++ fs, t) := by
  rw [descend, h]
  rfl

theorem Reads.descend_eq (h : Reads a s fs t) : descend readOn a s = .ok (fs, t) := by
  cases h with
  | stop ha hs =>
    rw [descend, roundBy_of_atEnd hs, endRound, if_neg ha]
    rfl
  | comma hs h =>
    rw [descend_of_onwards (by rw [roundBy_comma hs, if_pos rfl]), readOn_eq_ok_iff.2 h]
    rfl
  | bare hs hu h =>
    rw [descend_of_onwards (roundBy_bare hs hu), readOn_eq_ok_iff.2 h]
    rfl
  | listed hs hu hi hm h =>
    have hinner := readOn_eq_ok_iff.2 hi
    rw [descend_of_onwards (roundBy_listed hs hu hinner hm), readOn_eq_ok_iff.2 h]
    rfl

theorem Fails.descend_eq (h : Fails a s e t) : descend readOn a s = .error e := by
  cases h with
  | trailing hs =>
    rw [descend, roundBy_of_atEnd hs, endRound, if_pos rfl]
    rfl
  | missing ha hs =>
    rw [descend, roundBy_comma hs, if_neg ha]
    rfl
  | comma hs h =>
    rw [descend_of_onwards (by rw [roundBy_comma hs, if_pos rfl]), h.readOn_eq]
    rfl
  | head hs hparen hcomma h =>
    rw [descend, roundBy_field hs hparen hcomma, fieldBy, Cursor.skipBlanks_skipBlanks,
      h.readHead_eq]
    rfl
  | bare hs hu h =>
    rw [descend_of_onwards (roundBy_bare hs hu), h.readOn_eq]
    rfl
  | inside hs hu h =>
    rw [descend, roundBy_opening hs hu, h.readOn_eq]
    rfl
  | unclosed hs hu hi ht =>
    rw [descend, roundBy_opening hs hu, readOn_eq_ok_iff.2 hi, exceptOk_bind, closeField, ht]
    rfl
  | listed hs hu hi hm h =>
    have hinner := readOn_eq_ok_iff.2 hi
    rw [descend_of_onwards (roundBy_listed hs hu hinner hm), h.readOn_eq]
    rfl

end

/-- Reading on is a round, and reading on behind it. -/
theorem descend_readOn : descend readOn = readOn := by
  funext a s
  cases h : readOn a s with
  | ok result => exact (readOn_eq_ok_iff.1 h).descend_eq
  | error e =>
    obtain ⟨t, ht⟩ := exists_fails_of_readFields (exceptMap_eq_error_iff.1 h)
    exact ht.descend_eq

/-! ## Each step leads further on -/

section
variable {lists lists' : ListReader} {a b : Awaiting} {s t u : Cursor} {head : FieldHead}
  {f : FieldSpec} {fs : List FieldSpec} {r : List Char}

theorem before_of_readHead (hs : readHead s.skipBlanks = .ok (head, u)) :
    s.Before u.skipBlanks := by
  obtain ⟨_, -, hfront⟩ := s.spans_skipBlanks
  obtain ⟨_, -, hbehind⟩ := u.spans_skipBlanks
  have hhead : s.skipBlanks.Before u := ⟨head.chars, head.chars_ne_nil, (spans_of_readHead hs).1⟩
  exact hfront.before (hhead.of_spans hbehind)

/-- A list in parentheses begins behind the place where its field begins. -/
theorem before_of_opening (hs : readHead s.skipBlanks = .ok (head, u))
    (hu : u.skipBlanks.rest = '(' :: r) : s.Before ⟨u.skipBlanks.position + 1, r⟩ :=
  (before_of_readHead hs).trans (Cursor.before_of_cons hu)

/-- The descent does not go back. -/
theorem exists_spans_of_readOn (h : readOn a s = .ok (fs, t)) : ∃ cs, s.Spans cs t := by
  obtain ⟨cs, hspan, -⟩ := (readOn_eq_ok_iff.1 h).derives
  exact ⟨cs, hspan⟩

/-- A field ends behind the place where it begins. -/
theorem before_of_fieldBy (h : fieldBy readOn s = .ok (f, t)) : s.Before t := by
  rw [fieldBy] at h
  split at h
  · cases h
  · next head u hs =>
    split at h
    · next r hu =>
      obtain ⟨⟨inner, m⟩, hinner, hclose⟩ := exceptBind_eq_ok_iff.1 h
      obtain ⟨_, hspan⟩ := exists_spans_of_readOn hinner
      rw [closeField] at hclose
      split at hclose
      · next r' hm =>
        cases hclose
        exact ((before_of_opening hs hu).of_spans hspan).trans (Cursor.before_of_cons hm)
      · cases hclose
    · cases h
      exact before_of_readHead hs

/-- A round that is not the last one ends behind the place where it begins. -/
theorem before_of_roundBy (h : roundBy readOn a s = .ok (.onwards fs b t)) : s.Before t := by
  obtain ⟨_, -, hfront⟩ := s.spans_skipBlanks
  have hend {s : Cursor} : endRound a s ≠ .ok (.onwards fs b t) := by
    rw [endRound]
    split <;> simp
  rw [roundBy] at h
  split at h
  · exact absurd h hend
  · next c r hr =>
    split_ifs at h with hparen hcomma ha
    · exact absurd h hend
    · cases h
      exact hfront.before (Cursor.before_of_cons hr)
    · obtain ⟨⟨f, u⟩, hfield, hround⟩ := exceptMap_eq_ok_iff.1 h
      cases hround
      exact hfront.before (before_of_fieldBy hfield)

/-! ## What a step asks for -/

/-- A field depends on lists only that begin behind its own beginning. -/
theorem fieldBy_congr (h : ∀ t, s.Before t → lists .firstField t = lists' .firstField t) :
    fieldBy lists s = fieldBy lists' s := by
  cases hs : readHead s.skipBlanks with
  | error e => simp only [fieldBy, hs]
  | ok result =>
    obtain ⟨head, u⟩ := result
    by_cases hopening : ∃ r, u.skipBlanks.rest = '(' :: r
    · obtain ⟨r, hu⟩ := hopening
      rw [fieldBy_opening hs hu, fieldBy_opening hs hu, h _ (before_of_opening hs hu)]
    · rw [not_exists] at hopening
      rw [fieldBy_bare hs hopening, fieldBy_bare hs hopening]

theorem roundBy_congr (h : ∀ t, s.Before t → lists .firstField t = lists' .firstField t) :
    roundBy lists a s = roundBy lists' a s := by
  obtain ⟨_, -, hfront⟩ := s.spans_skipBlanks
  have hfield : fieldBy lists s.skipBlanks = fieldBy lists' s.skipBlanks :=
    fieldBy_congr fun t ht => h t (hfront.before ht)
  rw [roundBy, roundBy, hfield]

/-- What the descent gives at a place depends on what it gives further on only. -/
theorem descend_congr (h : ∀ a t, s.Before t → lists a t = readOn a t) :
    descend lists a s = descend readOn a s := by
  have hround : roundBy lists a s = roundBy readOn a s :=
    roundBy_congr fun t ht => h .firstField t ht
  rw [descend, descend, hround]
  cases hr : roundBy readOn a s with
  | error e => rfl
  | ok round =>
    cases round with
    | ended stop => rfl
    | onwards fs b t =>
      have hbehind : lists b t = readOn b t := h b t (before_of_roundBy hr)
      rw [exceptOk_bind, exceptOk_bind, Round.resume, Round.resume, hbehind]

/-- As many rounds within one another as there are characters left, and one more, are enough: what
is put in for the descent below them is not asked for. -/
theorem iterate_descend_eq (lists : ListReader) {n : Nat} (a : Awaiting) (s : Cursor)
    (h : s.rest.length < n) : descend^[n] lists a s = readOn a s := by
  induction n generalizing a s with
  | zero => exact absurd h (Nat.not_lt_zero _)
  | succ n ih =>
    have hdeeper (b : Awaiting) (t : Cursor) (ht : s.Before t) :
        descend^[n] lists b t = readOn b t := by
      apply ih
      have := ht.length_lt
      omega
    calc descend^[n + 1] lists a s
      _ = descend (descend^[n] lists) a s := by rw [Function.iterate_succ_apply']
      _ = descend readOn a s := descend_congr hdeeper
      _ = readOn a s := by rw [descend_readOn]

end

end Shape
end RecordProjection
