import RecordProjection.Proofs.Results
import RecordProjection.Proofs.Shape.Grammar

/-!
# Readings of shapes

What the descent does on a text, as a relation: `Reads a s fs t` says that reading on from `s` in
state `a` gives the fields `fs` and stops at `t`. Its rules are the ways in which one step can go
on, so what holds of a reading is proved by induction on them.

## Main definitions

* `Cursor.Spans s cs t` — the text between two places.
* `Reads` — the readings.
-/
namespace RecordProjection

open Text

/-! ## Places in a text -/

/-- The place `t` lies behind `s` in the same text, and `cs` is what stands between them. -/
def Cursor.Spans (s : Cursor) (cs : List Char) (t : Cursor) : Prop :=
  s.rest = cs ++ t.rest ∧ t.position = s.position + cs.length

namespace Cursor

@[simp] theorem spans_nil_iff {s t : Cursor} : s.Spans [] t ↔ t = s := by
  cases s; cases t
  simp only [Spans, List.nil_append, List.length_nil, Nat.add_zero, mk.injEq]
  constructor
  · rintro ⟨rfl, rfl⟩
    exact ⟨rfl, rfl⟩
  · rintro ⟨rfl, rfl⟩
    exact ⟨rfl, rfl⟩

theorem Spans.trans {s t u : Cursor} {cs ds : List Char} (h : s.Spans cs t) (h' : t.Spans ds u) :
    s.Spans (cs ++ ds) u := by
  obtain ⟨hr, hp⟩ := h
  obtain ⟨hr', hp'⟩ := h'
  refine ⟨?_, ?_⟩
  · rw [hr, hr', List.append_assoc]
  · rw [hp', hp, List.length_append, Nat.add_assoc]

/-- A text between two places can be cut anywhere. -/
theorem Spans.split {s u : Cursor} {cs ds : List Char} (h : s.Spans (cs ++ ds) u) :
    ∃ t, s.Spans cs t ∧ t.Spans ds u := by
  obtain ⟨hr, hp⟩ := h
  refine ⟨⟨s.position + cs.length, ds ++ u.rest⟩, ⟨?_, rfl⟩, rfl, ?_⟩
  · rw [hr, List.append_assoc]
  · rw [hp, List.length_append, Nat.add_assoc]

theorem Spans.cons_iff {s t : Cursor} {c : Char} {cs : List Char} :
    s.Spans (c :: cs) t ↔ ∃ r, s.rest = c :: r ∧ (⟨s.position + 1, r⟩ : Cursor).Spans cs t := by
  simp only [Spans, List.cons_append, List.length_cons]
  constructor
  · rintro ⟨hr, hp⟩
    exact ⟨_, hr, rfl, by omega⟩
  · rintro ⟨r, hr, rfl, hp⟩
    exact ⟨hr, by omega⟩

theorem spans_skipBlanks (s : Cursor) :
    ∃ w, Blanks w ∧ s.Spans w s.skipBlanks :=
  ⟨s.rest.takeWhile isBlank, blanks_takeWhile s.rest, List.takeWhile_append_dropWhile.symm, rfl⟩

/-- Skipping blanks does not depend on where among them it starts. -/
theorem Spans.skipBlanks_eq {s t : Cursor} {w : List Char} (h : s.Spans w t) (hw : Blanks w) :
    s.skipBlanks = t.skipBlanks := by
  obtain ⟨hr, hp⟩ := h
  simp only [skipBlanks, mk.injEq]
  refine ⟨?_, ?_⟩
  · rw [hr, List.takeWhile_append_of_pos hw, List.length_append, hp]
    omega
  · rw [hr, hw.dropBlanks_append]

theorem skipBlanks_eq_self {s : Cursor} (h : ∀ c ∈ s.rest.head?, isBlank c = false) :
    s.skipBlanks = s := by
  obtain ⟨w, hw, hs⟩ := s.spans_skipBlanks
  cases w with
  | nil => exact spans_nil_iff.1 hs
  | cons c w =>
    have : isBlank c = false := h c (by rw [hs.1]; rfl)
    simp [hw c (by simp)] at this

@[simp] theorem skipBlanks_skipBlanks (s : Cursor) : s.skipBlanks.skipBlanks = s.skipBlanks :=
  skipBlanks_eq_self (isBlank_head?_dropBlanks s.rest)

end Cursor

/-! ## Heads of fields -/

/-- No identifier goes on into this text. -/
def EndsIdentifier (r : List Char) : Prop := ∀ c ∈ r.head?, isIdentifierPart c = false

@[simp] theorem endsIdentifier_cons {c : Char} {r : List Char} :
    EndsIdentifier (c :: r) ↔ isIdentifierPart c = false := by
  simp [EndsIdentifier]

/-- The rest of an identifier is all that goes on with it. -/
theorem EndsIdentifier.span {r : List Char} (h : EndsIdentifier r) {others : List Char}
    (ho : ∀ c ∈ others, isIdentifierPart c = true) :
    (others ++ r).takeWhile isIdentifierPart = others ∧
      (others ++ r).dropWhile isIdentifierPart = r := by
  have hstop : r.takeWhile isIdentifierPart = [] ∧ r.dropWhile isIdentifierPart = r := by
    cases r with
    | nil => exact ⟨rfl, rfl⟩
    | cons d r =>
      have hd : isIdentifierPart d = false := h d rfl
      exact ⟨List.takeWhile_cons_of_neg (by simp [hd]), List.dropWhile_cons_of_neg (by simp [hd])⟩
  rw [List.takeWhile_append_of_pos ho, List.dropWhile_append_of_pos ho, hstop.1, hstop.2]
  exact ⟨List.append_nil others, rfl⟩

/-- A head of a field does not go on into this text. -/
def FieldHead.EndsBefore : FieldHead → List Char → Prop
  | wildcard, r => Shape.readColons? r = none
  | named _ none, r => EndsIdentifier r ∧ Shape.readColons? r = none
  | named _ (some _), r => EndsIdentifier r

namespace Shape

theorem readColons?_eq_some_iff {cs r : List Char} :
    readColons? cs = some r ↔ cs = ':' :: ':' :: r := by
  unfold readColons?
  split
  · simp
  · next h => simpa using h r

/-- An identifier is read up to where it ends. -/
theorem readIdentifier_eq_ok_iff {s t : Cursor} {i : Identifier} :
    readIdentifier s = .ok (i, t) ↔ s.Spans i.chars t ∧ EndsIdentifier t.rest := by
  unfold readIdentifier
  cases hr : s.rest with
  | nil => simp [Cursor.Spans, Identifier.chars, hr]
  | cons c r =>
    by_cases hc : isIdentifierStart c = true
    · simp only [hc, dite_true, Except.ok.injEq, Prod.mk.injEq]
      constructor
      · rintro ⟨rfl, rfl⟩
        refine ⟨⟨?_, ?_⟩, ?_⟩
        · simp [Identifier.chars, hr]
        · simp only [Identifier.chars, List.length_cons]
          omega
        · intro d hd
          have := List.head?_dropWhile_not isIdentifierPart r
          rwa [hd] at this
      · rintro ⟨hs, ht⟩
        obtain ⟨first, others, hf, ho⟩ := i
        obtain ⟨r', hr', hs'⟩ := Cursor.Spans.cons_iff.1 hs
        obtain ⟨rfl, rfl⟩ : c = first ∧ r = r' := by simpa [hr] using hr'
        have hrest : r = others ++ t.rest := hs'.1
        obtain ⟨htake, hdrop⟩ := EndsIdentifier.span ht ho
        rw [← hrest] at htake hdrop
        refine ⟨by simp [htake], ?_⟩
        rw [htake, hdrop]
        cases t
        simp only [Cursor.mk.injEq, and_true]
        exact hs'.2.symm
    · simp only [hc, Bool.false_eq_true, dite_false, reduceCtorEq, false_iff, not_and]
      intro hs
      obtain ⟨r', hr', -⟩ := Cursor.Spans.cons_iff.1 hs
      obtain ⟨rfl, -⟩ : c = i.first ∧ r = r' := by simpa [hr] using hr'
      exact absurd i.isIdentifierStart_first hc

/-- What follows a head that was read. -/
theorem spans_of_readHead {s t : Cursor} {head : FieldHead} (h : readHead s = .ok (head, t)) :
    s.Spans head.chars t ∧ head.EndsBefore t.rest := by
  unfold readHead at h
  split at h
  · cases h
  · next r hr =>
    split at h
    · simp at h
    · next hcolons =>
      obtain ⟨rfl, rfl⟩ : FieldHead.wildcard = head ∧ ⟨s.position + 1, r⟩ = t := by simpa using h
      exact ⟨⟨hr, rfl⟩, hcolons⟩
  · split at h
    · simp at h
    · next name u hu =>
      obtain ⟨hs, hend⟩ := readIdentifier_eq_ok_iff.1 hu
      split at h
      · next hcolons =>
        obtain ⟨rfl, rfl⟩ : FieldHead.named name none = head ∧ u = t := by simpa using h
        exact ⟨hs, hend, hcolons⟩
      · next r hcolons =>
        split at h
        · simp at h
        · next key v hv =>
          obtain ⟨rfl, rfl⟩ : FieldHead.named name (some key) = head ∧ v = t := by simpa using h
          obtain ⟨hs', hend'⟩ := readIdentifier_eq_ok_iff.1 hv
          refine ⟨hs.trans ?_, hend'⟩
          have hu : u.Spans [':', ':'] ⟨u.position + 2, r⟩ :=
            ⟨readColons?_eq_some_iff.1 hcolons, rfl⟩
          exact hu.trans hs'

/-- A head that ends where it should is read. -/
theorem readHead_of_spans {s t : Cursor} {head : FieldHead} (h : s.Spans head.chars t)
    (hend : head.EndsBefore t.rest) : readHead s = .ok (head, t) := by
  cases head with
  | wildcard =>
    obtain ⟨r, hr, ht⟩ := Cursor.Spans.cons_iff.1 h
    obtain rfl := Cursor.spans_nil_iff.1 ht
    have hcolons : readColons? r = none := hend
    simp [readHead, hr, hcolons]
  | named name key =>
    have hstar : ∀ r, s.rest ≠ '*' :: r := by
      intro r hr
      have hfirst : name.first = '*' := by
        have := h.1.symm.trans hr
        cases key <;> exact (List.cons.inj this).1
      have := name.isIdentifierStart_first
      rw [hfirst] at this
      exact absurd this (by decide)
    have hne : s.rest ≠ [] := by
      rw [h.1]
      exact List.append_ne_nil_of_left_ne_nil (FieldHead.chars_ne_nil _) _
    unfold readHead
    split
    · next hr => exact absurd hr hne
    · next r hr => exact absurd hr (hstar r)
    · cases key with
      | none =>
        rw [readIdentifier_eq_ok_iff.2 ⟨h, hend.1⟩]
        simp [hend.2]
      | some key =>
        obtain ⟨u, hu, hcolons⟩ := Cursor.Spans.split h
        have hrest : u.rest = ':' :: ':' :: (key.chars ++ t.rest) := hcolons.1
        have hname : EndsIdentifier u.rest := by
          rw [hrest, endsIdentifier_cons]
          decide
        have hkey : (⟨u.position + 2, key.chars ++ t.rest⟩ : Cursor).Spans key.chars t :=
          ⟨rfl, by rw [hcolons.2]; simp only [List.length_cons]; omega⟩
        rw [readIdentifier_eq_ok_iff.2 ⟨hu, hname⟩]
        simp only [hrest, readColons?, readIdentifier_eq_ok_iff.2 ⟨hkey, hend⟩]

/-! ## Readings -/

/-- The end of a list of fields: the text is over, or its parenthesis is closed. -/
def AtEnd (r : List Char) : Prop := ∀ c ∈ r.head?, c = ')'

/-- Reading on from the first place gives the fields and stops at the second place. -/
inductive Reads : Awaiting → Cursor → List FieldSpec → Cursor → Prop
  | stop {a : Awaiting} {s : Cursor} (ha : a ≠ .fieldAfterComma) (hs : AtEnd s.skipBlanks.rest) :
      Reads a s [] s.skipBlanks
  | comma {s t : Cursor} {r : List Char} {fs : List FieldSpec} (hs : s.skipBlanks.rest = ',' :: r)
      (h : Reads .fieldAfterComma ⟨s.skipBlanks.position + 1, r⟩ fs t) : Reads .separator s fs t
  | bare {a : Awaiting} {s u t : Cursor} {head : FieldHead} {fs : List FieldSpec}
      (hs : readHead s.skipBlanks = .ok (head, u)) (hu : ∀ r, u.skipBlanks.rest ≠ '(' :: r)
      (h : Reads .separator u.skipBlanks fs t) : Reads a s (head.field none :: fs) t
  | listed {a : Awaiting} {s u m t : Cursor} {head : FieldHead} {r r' : List Char}
      {inner fs : List FieldSpec} (hs : readHead s.skipBlanks = .ok (head, u))
      (hu : u.skipBlanks.rest = '(' :: r)
      (hi : Reads .firstField ⟨u.skipBlanks.position + 1, r⟩ inner m) (hm : m.rest = ')' :: r')
      (h : Reads .separator ⟨m.position + 1, r'⟩ fs t) : Reads a s (head.field (some inner) :: fs) t

/-- A reading stops at the end of a list. -/
theorem Reads.atEnd {a : Awaiting} {s t : Cursor} {fs : List FieldSpec} (h : Reads a s fs t) :
    AtEnd t.rest := by
  induction h with
  | stop _ hs => exact hs
  | comma _ _ ih => exact ih
  | bare _ _ _ ih => exact ih
  | listed _ _ _ _ _ _ ih => exact ih

theorem endOfFields_eq_ok_iff {a : Awaiting} {s : Cursor} {n : Nat} {hn : s.rest.length ≤ n}
    {p : Parsed n} : endOfFields a s hn = .ok p ↔ a ≠ .fieldAfterComma ∧ p = ⟨[], s, hn⟩ := by
  unfold endOfFields
  split <;> simp [*, eq_comm]

theorem reads_of_readFields {a : Awaiting} {s : Cursor} {p : Parsed s.rest.length}
    (h : readFields a s = .ok p) : Reads a s p.fields p.stop := by
  fun_induction readFields a s with
  | case1 a s hs =>
    obtain ⟨ha, rfl⟩ := endOfFields_eq_ok_iff.1 h
    exact .stop ha (by simp [AtEnd, hs])
  | case2 a s r hs =>
    obtain ⟨ha, rfl⟩ := endOfFields_eq_ok_iff.1 h
    exact .stop ha (by simp [AtEnd, hs])
  | case3 s r hs _ ih =>
    obtain ⟨q, hq, rfl⟩ := exceptMap_eq_ok_iff.1 h
    exact .comma hs (ih hq)
  | case4 => simp at h
  | case5 => simp at h
  | case6 => simp at h
  | case7 a s _ _ _ _ _ head u hh _ r' hu inner hi r'' hm ih ih' =>
    obtain ⟨q, hq, rfl⟩ := exceptMap_eq_ok_iff.1 h
    exact .listed hh hu (ih hi) hm (ih' hq)
  | case8 => simp at h
  | case9 a s _ _ _ _ _ head u hh _ hu ih =>
    obtain ⟨q, hq, rfl⟩ := exceptMap_eq_ok_iff.1 h
    exact .bare hh hu (ih hq)

/-- A field does not begin with a character that ends or separates. -/
theorem exists_of_readHead {s u : Cursor} {head : FieldHead} (h : readHead s = .ok (head, u)) :
    ∃ c r, s.rest = c :: r ∧ c ≠ ')' ∧ c ≠ ',' := by
  obtain ⟨c, r, hr, hc⟩ := head.chars_eq_cons
  refine ⟨c, r ++ u.rest, ?_, ?_, ?_⟩
  · rw [(spans_of_readHead h).1.1, hr, List.cons_append]
  · rintro rfl
    exact absurd hc (by decide)
  · rintro rfl
    exact absurd hc (by decide)

theorem length_lt_of_readHead {s u : Cursor} {head : FieldHead}
    (hs : readHead s.skipBlanks = .ok (head, u)) : u.skipBlanks.rest.length < s.rest.length := by
  have hblanks := u.length_skipBlanks_le
  have hhead := length_of_readHead hs
  have hfront := s.length_skipBlanks_le
  omega

/-- A field without a list is read, and then the fields behind it. -/
theorem readFields_bare {a : Awaiting} {s u : Cursor} {head : FieldHead}
    (hs : readHead s.skipBlanks = .ok (head, u)) (hu : ∀ r, u.skipBlanks.rest ≠ '(' :: r) :
    ∃ h, readFields a s =
      (readFields .separator u.skipBlanks).map (·.cons (head.field none) h) := by
  obtain ⟨c, r, hr, hparen, hcomma⟩ := exists_of_readHead hs
  rw [readFields]
  split
  · next hr' => simp [hr] at hr'
  · next c' r' hr' =>
    obtain ⟨rfl, rfl⟩ : c = c' ∧ r = r' := by simpa [hr] using hr'
    rw [if_neg hparen, if_neg hcomma]
    split
    · next e he => simp [hs] at he
    · next head' u' hs' =>
      obtain ⟨rfl, rfl⟩ : head = head' ∧ u = u' := by simpa [hs] using hs'
      dsimp only
      split
      · next r' hr' => exact absurd hr' (hu r')
      · exact ⟨Nat.le_of_lt (length_lt_of_readHead hs), rfl⟩

/-- A list behind a field is read first. Its error is the error; then it has to be closed, and the
fields behind it are read. -/
theorem readFields_opening {a : Awaiting} {s u : Cursor} {head : FieldHead} {r : List Char}
    (hs : readHead s.skipBlanks = .ok (head, u)) (hu : u.skipBlanks.rest = '(' :: r) :
    (∀ e, readFields .firstField ⟨u.skipBlanks.position + 1, r⟩ = .error e →
      readFields a s = .error e) ∧
    ∀ inner : Parsed r.length, readFields .firstField ⟨u.skipBlanks.position + 1, r⟩ = .ok inner →
      ((∀ r', inner.stop.rest ≠ ')' :: r') →
        readFields a s = .error (.unclosedList head.name u.skipBlanks.position)) ∧
      ∀ r', inner.stop.rest = ')' :: r' → ∃ h, readFields a s =
        (readFields .separator ⟨inner.stop.position + 1, r'⟩).map
          (·.cons (head.field (some inner.fields)) h) := by
  obtain ⟨c, x, hx, hparen, hcomma⟩ := exists_of_readHead hs
  obtain ⟨result, hresult⟩ : ∃ result, readFields a s = result := ⟨_, rfl⟩
  rw [hresult]
  rw [readFields] at hresult
  split at hresult
  · next hx' => simp [hx] at hx'
  · next c' x' hx' =>
    obtain ⟨rfl, rfl⟩ : c = c' ∧ x = x' := by simpa [hx] using hx'
    rw [if_neg hparen, if_neg hcomma] at hresult
    split at hresult
    · next e he => simp [hs] at he
    · next head' u' hs' =>
      obtain ⟨rfl, rfl⟩ : head = head' ∧ u = u' := by simpa [hs] using hs'
      dsimp only at hresult
      split at hresult
      · next y hy =>
        obtain rfl : r = y := by simpa [hu] using hy
        split at hresult
        · next e he =>
          rw [he, ← hresult]
          refine ⟨fun e' he' => ?_, fun inner hi => ?_⟩
          · rw [Except.error.inj he']
          · cases hi
        · next inner' hi' =>
          rw [hi']
          refine ⟨fun e he => ?_, fun inner hi => ?_⟩
          · cases he
          · obtain rfl := Except.ok.inj hi
            split at hresult
            · next z hz =>
              refine ⟨fun hnot => absurd hz (hnot z), fun r' hr' => ?_⟩
              obtain rfl : z = r' := by simpa [hz] using hr'
              exact ⟨_, hresult.symm⟩
            · next hz => exact ⟨fun _ => hresult.symm, fun r' hr' => absurd hr' (hz r')⟩
      · next hy => exact absurd hu (hy r)

/-- What a reading gives, the descent gives. -/
theorem Reads.exists_readFields {a : Awaiting} {s t : Cursor} {fs : List FieldSpec}
    (h : Reads a s fs t) : ∃ p, readFields a s = .ok p ∧ p.fields = fs ∧ p.stop = t := by
  induction h with
  | @stop a s ha hs =>
    rw [readFields]
    split
    · exact ⟨_, endOfFields_eq_ok_iff.2 ⟨ha, rfl⟩, rfl, rfl⟩
    · next c r hr =>
      obtain rfl : c = ')' := hs c (by rw [hr]; rfl)
      rw [if_pos rfl]
      exact ⟨_, endOfFields_eq_ok_iff.2 ⟨ha, rfl⟩, rfl, rfl⟩
  | @comma s t r fs hs _ ih =>
    obtain ⟨p, hp, rfl, rfl⟩ := ih
    rw [readFields]
    split
    · next hr => simp [hs] at hr
    · next c r' hr =>
      obtain ⟨rfl, rfl⟩ : ',' = c ∧ r = r' := by simpa [hs] using hr
      rw [if_neg (by decide), if_pos rfl, if_pos rfl, hp]
      exact ⟨_, rfl, rfl, rfl⟩
  | bare hs hu _ ih =>
    obtain ⟨p, hp, rfl, rfl⟩ := ih
    obtain ⟨_, hread⟩ := readFields_bare hs hu
    rw [hread, hp]
    exact ⟨_, rfl, rfl, rfl⟩
  | listed hs hu _ hm _ ihi ih =>
    obtain ⟨inner, hi, rfl, rfl⟩ := ihi
    obtain ⟨p, hp, rfl, rfl⟩ := ih
    obtain ⟨_, hread⟩ := ((readFields_opening hs hu).2 inner hi).2 _ hm
    rw [hread, hp]
    exact ⟨_, rfl, rfl, rfl⟩

/-- A place, what is read there and where reading stops determine one another. -/
theorem Reads.unique {a : Awaiting} {s t t' : Cursor} {fs fs' : List FieldSpec}
    (h : Reads a s fs t) (h' : Reads a s fs' t') : fs = fs' ∧ t = t' := by
  obtain ⟨p, hp, rfl, rfl⟩ := h.exists_readFields
  obtain ⟨p', hp', rfl, rfl⟩ := h'.exists_readFields
  obtain rfl : p = p' := by simpa [hp] using hp'
  exact ⟨rfl, rfl⟩

end Shape
end RecordProjection
