import RecordProjection.Proofs.Shape.Reading

/-!
# Readings that fail

What makes the descent fail on a text, as a relation: `Fails a s e t` says that reading on from `s`
in state `a` fails with `e`, having come as far as `t`. Its rules are those of `Reads` for the steps
on the way, and one for each thing that can be wrong.

## Main definitions

* `FailsHead` — the failing readings of the head of a field.
* `Fails` — the failing readings.
-/
namespace RecordProjection.Shape

/-! ## Heads of fields -/

/-- There is no identifier at the end of the text, and none begins with another character. -/
theorem readIdentifier_eq_error_iff {s : Cursor} {e : SyntaxError} :
    readIdentifier s = .error e ↔
      (s.rest = [] ∧ e = .identifierMissing s.position) ∨
      ∃ c r, s.rest = c :: r ∧ isIdentifierStart c = false ∧ e = .identifierStart c s.position := by
  unfold readIdentifier
  cases hr : s.rest with
  | nil => simp [@eq_comm _ e]
  | cons c r =>
    by_cases hc : isIdentifierStart c = true
    · simp [hc]
    · simp [hc, @eq_comm _ e]

/-- Reading the head of a field fails: there is none at the end of the text, a wildcard cannot have
an alias, and the name of a field and its alias have to be identifiers. -/
inductive FailsHead : Cursor → SyntaxError → Cursor → Prop
  | ended {s : Cursor} (hs : s.rest = []) : FailsHead s (.unexpectedEnd s.position) s
  | aliased {s : Cursor} {r : List Char} (hs : s.rest = '*' :: ':' :: ':' :: r) :
      FailsHead s (.aliasedWildcard (s.position + 1)) ⟨s.position + 1, ':' :: ':' :: r⟩
  | name {s : Cursor} {c : Char} {r : List Char} (hs : s.rest = c :: r) (hstar : c ≠ '*')
      (hc : isIdentifierStart c = false) : FailsHead s (.identifierStart c s.position) s
  | key {s u : Cursor} {name : Identifier} {r : List Char} {e : SyntaxError}
      (hs : s.Spans name.chars u) (hu : u.rest = ':' :: ':' :: r)
      (h : readIdentifier ⟨u.position + 2, r⟩ = .error e) : FailsHead s e ⟨u.position + 2, r⟩

theorem exists_failsHead_of_readHead {s : Cursor} {e : SyntaxError} (h : readHead s = .error e) :
    ∃ t, FailsHead s e t := by
  unfold readHead at h
  split at h
  · next hr =>
    obtain rfl := Except.error.inj h
    exact ⟨s, .ended hr⟩
  · next r hr =>
    split at h
    · next r' hcolons =>
      obtain rfl := Except.error.inj h
      rw [readColons?_eq_some_iff] at hcolons
      exact ⟨_, .aliased (hcolons ▸ hr)⟩
    · cases h
  · next hne hstar =>
    split at h
    · next e' he =>
      obtain rfl := Except.error.inj h
      rcases readIdentifier_eq_error_iff.1 he with ⟨hr, -⟩ | ⟨c, r, hr, hc, rfl⟩
      · exact absurd hr hne
      · refine ⟨s, .name hr ?_ hc⟩
        rintro rfl
        exact hstar r hr
    · next name u hu =>
      obtain ⟨hname, -⟩ := readIdentifier_eq_ok_iff.1 hu
      split at h
      · cases h
      · next r hcolons =>
        split at h
        · next e' he =>
          obtain rfl := Except.error.inj h
          exact ⟨_, .key hname (readColons?_eq_some_iff.1 hcolons) he⟩
        · cases h

theorem FailsHead.readHead_eq {s t : Cursor} {e : SyntaxError} (h : FailsHead s e t) :
    readHead s = .error e := by
  cases h with
  | ended hs => simp [readHead, hs]
  | aliased hs => simp [readHead, hs, readColons?]
  | @name c r hs hstar hc =>
    have hfails : readIdentifier s = .error (.identifierStart c s.position) :=
      readIdentifier_eq_error_iff.2 (.inr ⟨c, r, hs, hc, rfl⟩)
    unfold readHead
    split
    · next hr => simp [hs] at hr
    · next r' hr =>
      rw [hs] at hr
      exact absurd (List.cons.inj hr).1 hstar
    · rw [hfails]
  | @key u name r _ hs hu h =>
    have hend : EndsIdentifier u.rest := by
      rw [hu, endsIdentifier_cons]
      decide
    have hname := readIdentifier_eq_ok_iff.2 ⟨hs, hend⟩
    obtain ⟨r'', hr'', -⟩ := Cursor.Spans.cons_iff.1 hs
    unfold readHead
    split
    · next hr' => simp [hr''] at hr'
    · next r' hr' =>
      -- a name does not begin with a star
      have hfirst : name.first = '*' := by
        rw [hr'] at hr''
        exact (List.cons.inj hr'').1.symm
      have hstart := name.isIdentifierStart_first
      rw [hfirst] at hstart
      exact absurd hstart (by decide)
    · rw [hname]
      simp only [hu, readColons?, h]

/-! ## Lists of fields -/

theorem endOfFields_eq_error_iff {a : Awaiting} {s : Cursor} {n : Nat} {hn : s.rest.length ≤ n}
    {e : SyntaxError} : endOfFields a s hn = .error e ↔
      a = .fieldAfterComma ∧ e = .trailingComma s.position := by
  unfold endOfFields
  split <;> simp [*, eq_comm]

/-- Reading on from the first place fails, having come as far as the second place. Of a list that
is not closed the whole text has been read. -/
inductive Fails : Awaiting → Cursor → SyntaxError → Cursor → Prop
  | trailing {s : Cursor} (hs : AtEnd s.skipBlanks.rest) :
      Fails .fieldAfterComma s (.trailingComma s.skipBlanks.position) s.skipBlanks
  | missing {a : Awaiting} {s : Cursor} {r : List Char} (ha : a ≠ .separator)
      (hs : s.skipBlanks.rest = ',' :: r) :
      Fails a s (.missingField s.skipBlanks.position) s.skipBlanks
  | comma {s t : Cursor} {r : List Char} {e : SyntaxError} (hs : s.skipBlanks.rest = ',' :: r)
      (h : Fails .fieldAfterComma ⟨s.skipBlanks.position + 1, r⟩ e t) : Fails .separator s e t
  | head {a : Awaiting} {s t : Cursor} {c : Char} {r : List Char} {e : SyntaxError}
      (hs : s.skipBlanks.rest = c :: r) (hparen : c ≠ ')') (hcomma : c ≠ ',')
      (h : FailsHead s.skipBlanks e t) : Fails a s e t
  | bare {a : Awaiting} {s u t : Cursor} {head : FieldHead} {e : SyntaxError}
      (hs : readHead s.skipBlanks = .ok (head, u)) (hu : ∀ r, u.skipBlanks.rest ≠ '(' :: r)
      (h : Fails .separator u.skipBlanks e t) : Fails a s e t
  | inside {a : Awaiting} {s u t : Cursor} {head : FieldHead} {r : List Char} {e : SyntaxError}
      (hs : readHead s.skipBlanks = .ok (head, u)) (hu : u.skipBlanks.rest = '(' :: r)
      (h : Fails .firstField ⟨u.skipBlanks.position + 1, r⟩ e t) : Fails a s e t
  | unclosed {a : Awaiting} {s u t : Cursor} {head : FieldHead} {r : List Char}
      {inner : List FieldSpec} (hs : readHead s.skipBlanks = .ok (head, u))
      (hu : u.skipBlanks.rest = '(' :: r)
      (hi : Reads .firstField ⟨u.skipBlanks.position + 1, r⟩ inner t) (ht : t.rest = []) :
      Fails a s (.unclosedList head.name u.skipBlanks.position) t
  | listed {a : Awaiting} {s u m t : Cursor} {head : FieldHead} {r r' : List Char}
      {inner : List FieldSpec} {e : SyntaxError} (hs : readHead s.skipBlanks = .ok (head, u))
      (hu : u.skipBlanks.rest = '(' :: r)
      (hi : Reads .firstField ⟨u.skipBlanks.position + 1, r⟩ inner m) (hm : m.rest = ')' :: r')
      (h : Fails .separator ⟨m.position + 1, r'⟩ e t) : Fails a s e t

theorem exists_fails_of_readFields {a : Awaiting} {s : Cursor} {e : SyntaxError}
    (h : readFields a s = .error e) : ∃ t, Fails a s e t := by
  fun_induction readFields a s with
  | case1 a s hs =>
    obtain ⟨rfl, rfl⟩ := endOfFields_eq_error_iff.1 h
    exact ⟨_, .trailing (by simp [AtEnd, hs])⟩
  | case2 a s r hs =>
    obtain ⟨rfl, rfl⟩ := endOfFields_eq_error_iff.1 h
    exact ⟨_, .trailing (by simp [AtEnd, hs])⟩
  | case3 s r hs _ ih =>
    obtain ⟨t, ht⟩ := ih (exceptMap_eq_error_iff.1 h)
    exact ⟨t, .comma hs ht⟩
  | case4 a s r ha hs =>
    obtain rfl := Except.error.inj h
    exact ⟨_, .missing ha hs⟩
  | case5 a s c r hs hparen hcomma e' he =>
    obtain rfl := Except.error.inj h
    obtain ⟨t, ht⟩ := exists_failsHead_of_readHead he
    exact ⟨t, .head hs hparen hcomma ht⟩
  | case6 a s _ _ _ _ _ head u hh _ r' hu e' hi ih =>
    obtain rfl := Except.error.inj h
    obtain ⟨t, ht⟩ := ih hi
    exact ⟨t, .inside hh hu ht⟩
  | case7 a s _ _ _ _ _ head u hh _ r' hu inner hi r'' hm _ ih =>
    obtain ⟨t, ht⟩ := ih (exceptMap_eq_error_iff.1 h)
    exact ⟨t, .listed hh hu (reads_of_readFields hi) hm ht⟩
  | case8 a s _ _ _ _ _ head u hh _ r' hu inner hi hm _ =>
    obtain rfl := Except.error.inj h
    have hinner := reads_of_readFields hi
    have hend : inner.stop.rest = [] := by
      cases hrest : inner.stop.rest with
      | nil => rfl
      | cons c r'' =>
        obtain rfl : c = ')' := hinner.atEnd c (by rw [hrest]; rfl)
        exact absurd hrest (hm r'')
    exact ⟨_, .unclosed hh hu hinner hend⟩
  | case9 a s _ _ _ _ _ head u hh _ hu ih =>
    obtain ⟨t, ht⟩ := ih (exceptMap_eq_error_iff.1 h)
    exact ⟨t, .bare hh hu ht⟩

/-- A failing reading makes the descent fail with its error. -/
theorem Fails.readFields_eq {a : Awaiting} {s t : Cursor} {e : SyntaxError} (h : Fails a s e t) :
    readFields a s = .error e := by
  induction h with
  | @trailing s hs =>
    rw [readFields]
    split
    · exact endOfFields_eq_error_iff.2 ⟨rfl, rfl⟩
    · next c r hr =>
      obtain rfl : c = ')' := hs c (by rw [hr]; rfl)
      rw [if_pos rfl]
      exact endOfFields_eq_error_iff.2 ⟨rfl, rfl⟩
  | @missing a s r ha hs =>
    rw [readFields]
    split
    · next hr => simp [hs] at hr
    · next c r' hr =>
      obtain ⟨rfl, -⟩ : ',' = c ∧ r = r' := by simpa [hs] using hr
      rw [if_neg (by decide), if_pos rfl, if_neg ha]
  | @comma s t r e hs _ ih =>
    rw [readFields]
    split
    · next hr => simp [hs] at hr
    · next c r' hr =>
      obtain ⟨rfl, rfl⟩ : ',' = c ∧ r = r' := by simpa [hs] using hr
      rw [if_neg (by decide), if_pos rfl, if_pos rfl, ih]
      rfl
  | @head a s t c r e hs hparen hcomma h =>
    rw [readFields]
    split
    · next hr => simp [hs] at hr
    · next c' r' hr =>
      obtain ⟨rfl, rfl⟩ : c = c' ∧ r = r' := by simpa [hs] using hr
      rw [if_neg hparen, if_neg hcomma]
      split
      · next e' he => rw [h.readHead_eq] at he; rw [Except.error.inj he]
      · next head u hh => simp [h.readHead_eq] at hh
  | bare hs hu _ ih =>
    obtain ⟨_, hread⟩ := readFields_bare hs hu
    rw [hread, ih]
    rfl
  | inside hs hu _ ih => exact (readFields_opening hs hu).1 _ ih
  | unclosed hs hu hi ht =>
    obtain ⟨inner, hread, -, rfl⟩ := hi.exists_readFields
    exact ((readFields_opening hs hu).2 inner hread).1 (by simp [ht])
  | listed hs hu hi hm _ ih =>
    obtain ⟨inner, hread, rfl, rfl⟩ := hi.exists_readFields
    obtain ⟨_, hread⟩ := ((readFields_opening hs hu).2 inner hread).2 _ hm
    rw [hread, ih]
    rfl

/-! ## Where a reading fails -/

theorem FailsHead.position_eq {s t : Cursor} {e : SyntaxError} (h : FailsHead s e t) :
    e.code ≠ "UNCLOSED_NESTED" ∧ e.position = t.position := by
  have hidentifier : ∀ s e, readIdentifier s = .error e →
      e.code ≠ "UNCLOSED_NESTED" ∧ e.position = s.position := by
    intro s e h
    rcases readIdentifier_eq_error_iff.1 h with ⟨-, rfl⟩ | ⟨c, r, -, -, rfl⟩
    · simp [SyntaxError.code, SyntaxError.position]
    · simp [SyntaxError.code, SyntaxError.position]
  cases h with
  | ended => simp [SyntaxError.code, SyntaxError.position]
  | aliased => simp [SyntaxError.code, SyntaxError.position]
  | name => simp [SyntaxError.code, SyntaxError.position]
  | key _ _ h => exact hidentifier _ _ h

/-- An error is reported where reading stopped, unless it is a list that is not closed. -/
theorem Fails.position_eq {a : Awaiting} {s t : Cursor} {e : SyntaxError} (h : Fails a s e t) :
    (e.code = "UNCLOSED_NESTED" ∧ t.rest = []) ∨
      (e.code ≠ "UNCLOSED_NESTED" ∧ e.position = t.position) := by
  induction h with
  | trailing => exact .inr (by simp [SyntaxError.code, SyntaxError.position])
  | missing => exact .inr (by simp [SyntaxError.code, SyntaxError.position])
  | head _ _ _ h => exact .inr h.position_eq
  | unclosed _ _ _ ht => exact .inl ⟨rfl, ht⟩
  | comma _ _ ih => exact ih
  | bare _ _ _ ih => exact ih
  | inside _ _ _ ih => exact ih
  | listed _ _ _ _ _ ih => exact ih

/-! ## The parser -/

/-- A text is no shape when it is blank, when reading it fails, or when reading stops before its
end. -/
theorem parse_eq_error_iff {text : String} {e : SyntaxError} :
    parse text = .error e ↔
      (Text.trimChars text.toList = [] ∧ e = .emptyShape) ∨
      (Text.trimChars text.toList ≠ [] ∧
        ((∃ t, Fails .firstField (.start (Text.trimChars text.toList)) e t) ∨
        ∃ fs t c r, Reads .firstField (.start (Text.trimChars text.toList)) fs t ∧
          t.rest = c :: r ∧ e = .unexpectedCharacter c t.position)) := by
  unfold parse
  generalize Text.trimChars text.toList = cs
  by_cases hcs : cs = []
  · simp [hcs, @eq_comm _ e]
  have hempty : cs.isEmpty = false := by simpa using hcs
  simp only [hempty, Bool.false_eq_true, if_false, hcs, false_and, false_or, ne_eq, not_false_eq_true,
    true_and]
  constructor
  · intro h
    split at h
    · next e' he =>
      obtain rfl := Except.error.inj h
      exact .inl (exists_fails_of_readFields he)
    · next p hp =>
      split at h
      · cases h
      · next c r hr =>
        obtain rfl := Except.error.inj h
        exact .inr ⟨p.fields, p.stop, c, r, reads_of_readFields hp, hr, rfl⟩
  · rintro (⟨t, h⟩ | ⟨fs, t, c, r, h, hr, rfl⟩)
    · rw [h.readFields_eq]
    · obtain ⟨p, hp, -, rfl⟩ := h.exists_readFields
      rw [hp]
      simp only [hr]

end RecordProjection.Shape
