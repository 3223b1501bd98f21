import RecordProjection.Proofs.Shape.Balance
import RecordProjection.Proofs.Shape.Failures

/-!
# What error codes say of a text

A caller who knows the code of a syntax error and its place knows what stands there, and what stands
before it or behind it. A reading that fails is followed from its start with the text that lies
before it: each state of the descent says what the last character before it is that is no blank.

## Main definitions

* `Text.lastSolid?` : the last character of a text that is no blank.
* `Awaiting.Follows` : what stands before a state of the descent.
* `SyntaxError.FoundBetween` : what an error says of the text before its place and behind it.
-/
namespace RecordProjection

open Text Shape

/-! ## The last character that is no blank -/

/-- The last character of a text that is no blank. -/
def Text.lastSolid? (cs : List Char) : Option Char := (cs.filter fun c => !isBlank c).getLast?

namespace Text

theorem lastSolid?_append_blanks (cs : List Char) {w : List Char} (hw : Blanks w) :
    lastSolid? (cs ++ w) = lastSolid? cs := by
  have hnone : (w.filter fun c => !isBlank c) = [] := by
    rw [List.filter_eq_nil_iff]
    intro c hc
    simp [hw c hc]
  rw [lastSolid?, List.filter_append, hnone, List.append_nil, lastSolid?]

theorem lastSolid?_concat (cs : List Char) {c : Char} (hc : isBlank c = false) :
    lastSolid? (cs ++ [c]) = some c := by
  have hone : ([c].filter fun c => !isBlank c) = [c] := by simp [hc]
  rw [lastSolid?, List.filter_append, hone, List.getLast?_concat]

end Text

namespace Shape

/-- What stands before a state of the descent: an opening parenthesis or nothing at all where the
first field has to come, and a comma where a field has to come after one. -/
def Awaiting.Follows (front : List Char) : Awaiting → Prop
  | firstField => ∀ c ∈ lastSolid? front, c = '('
  | separator => True
  | fieldAfterComma => lastSolid? front = some ','

end Shape

namespace SyntaxError

/-- What an error says of the text before its place and from there on. Reading meets neither an
empty text nor an end where a field has to come. -/
def FoundBetween (before behind : List Char) : SyntaxError → Prop
  | emptyShape | unexpectedEnd _ => False
  | missingField _ => behind.head? = some ',' ∧ ∀ c ∈ lastSolid? before, c = ',' ∨ c = '('
  | trailingComma _ => (behind = [] ∨ behind.head? = some ')') ∧ lastSolid? before = some ','
  | unexpectedCharacter _ _ => behind.head? = some ')' ∧ Balanced before
  | aliasedWildcard _ => ['*'] <:+ before ∧ [':', ':'] <+: behind
  | unclosedList _ _ => behind.head? = some '(' ∧ Balanced behind.tail
  | identifierMissing _ => behind = [] ∧ [':', ':'] <:+ before
  | identifierStart c _ => behind.head? = some c ∧ isIdentifierStart c = false ∧
      (¬ [':', ':'] <:+ before → c ≠ ',' ∧ c ≠ ')' ∧ c ≠ '*' ∧ isBlank c = false)

end SyntaxError

namespace Shape

/-! ## Readings that fail -/

/-- The head of a field fails at a place that its error is right about. -/
theorem FailsHead.foundBetween {s t : Cursor} {e : SyntaxError} {c : Char} {r : List Char}
    (h : FailsHead s e t) (hs : s.rest = c :: r) (hblank : isBlank c = false) (hparen : c ≠ ')')
    (hcomma : c ≠ ',') : ∃ cs, s.Spans cs t ∧ e.position = t.position ∧
      ∀ front, e.FoundBetween (front ++ cs) t.rest := by
  cases h with
  | ended hnil => simp [hs] at hnil
  | aliased hstar =>
    refine ⟨['*'], ⟨hstar, rfl⟩, rfl, ?_⟩
    intro front
    exact ⟨List.suffix_append _ _, List.prefix_append [':', ':'] _⟩
  | name hs' hstar hc =>
    obtain ⟨rfl, rfl⟩ := List.cons.inj (hs.symm.trans hs')
    refine ⟨[], Cursor.spans_nil_iff.2 rfl, rfl, ?_⟩
    intro front
    exact ⟨by rw [hs]; rfl, hc, fun _ => ⟨hcomma, hparen, hstar, hblank⟩⟩
  | @key u name r' _ hname hu hkey =>
    have hcolons : u.Spans [':', ':'] ⟨u.position + 2, r'⟩ := ⟨hu, rfl⟩
    have hsuffix (front : List Char) : [':', ':'] <:+ front ++ (name.chars ++ [':', ':']) := by
      rw [← List.append_assoc]
      exact List.suffix_append _ _
    refine ⟨name.chars ++ [':', ':'], hname.trans hcolons, ?_⟩
    rcases readIdentifier_eq_error_iff.1 hkey with ⟨hr, rfl⟩ | ⟨d, r'', hr, hd, rfl⟩
    · exact ⟨rfl, fun front => ⟨hr, hsuffix front⟩⟩
    · refine ⟨rfl, fun front => ⟨congrArg List.head? hr, hd, fun hnot => ?_⟩⟩
      exact absurd (hsuffix front) hnot

/-- A reading fails at a place that its error is right about, whatever text lies before it that its
state can follow. -/
theorem Fails.foundBetween {a : Awaiting} {s t : Cursor} {e : SyntaxError} (h : Fails a s e t) :
    ∃ cs p, s.Spans cs p ∧ e.position = p.position ∧
      ∀ front, a.Follows front → e.FoundBetween (front ++ cs) p.rest := by
  induction h with
  | @trailing s hs =>
    obtain ⟨w, hw, hspan⟩ := s.spans_skipBlanks
    refine ⟨w, s.skipBlanks, hspan, rfl, ?_⟩
    intro front hfront
    refine ⟨?_, (lastSolid?_append_blanks front hw).trans hfront⟩
    cases hrest : s.skipBlanks.rest with
    | nil => exact .inl rfl
    | cons c r => exact .inr (congrArg some (hs c (by rw [hrest]; rfl)))
  | @missing a s r ha hs =>
    obtain ⟨w, hw, hspan⟩ := s.spans_skipBlanks
    refine ⟨w, s.skipBlanks, hspan, rfl, ?_⟩
    intro front hfront
    refine ⟨congrArg List.head? hs, ?_⟩
    rw [lastSolid?_append_blanks front hw]
    intro c hc
    cases a with
    | firstField => exact .inr (hfront c hc)
    | separator => exact absurd rfl ha
    | fieldAfterComma => exact .inl (Option.some.inj (hc.symm.trans hfront))
  | @comma s t r e hs _ ih =>
    obtain ⟨w, hw, hspan⟩ := s.spans_skipBlanks
    obtain ⟨cs, p, hcs, hposition, hfound⟩ := ih
    refine ⟨w ++ ',' :: cs, p, hspan.trans (Cursor.Spans.cons_iff.2 ⟨r, hs, hcs⟩), hposition, ?_⟩
    intro front _
    have hbehind := hfound (front ++ w ++ [',']) (lastSolid?_concat _ (by decide))
    simpa only [List.append_assoc, List.cons_append, List.nil_append] using hbehind
  | @head a s t c r e hs hparen hcomma h =>
    obtain ⟨w, hw, hspan⟩ := s.spans_skipBlanks
    have hblank : isBlank c = false := isBlank_head?_dropBlanks s.rest c (congrArg List.head? hs)
    obtain ⟨cs, hcs, hposition, hfound⟩ := h.foundBetween hs hblank hparen hcomma
    refine ⟨w ++ cs, t, hspan.trans hcs, hposition, ?_⟩
    intro front _
    rw [← List.append_assoc]
    exact hfound (front ++ w)
  | @bare a s u t head e hs hu _ ih =>
    obtain ⟨cs, p, hcs, hposition, hfound⟩ := ih
    obtain ⟨w, v, hw, hv, -, hspan⟩ := spans_of_bare hs hcs
    refine ⟨_, p, hspan, hposition, ?_⟩
    intro front _
    have hbehind := hfound (front ++ w ++ head.chars ++ v) trivial
    simpa only [List.append_assoc] using hbehind
  | @inside a s u t head r e hs hu _ ih =>
    obtain ⟨cs, p, hcs, hposition, hfound⟩ := ih
    obtain ⟨w, v, hw, hv, hspan⟩ := spans_of_opening hs hu hcs
    refine ⟨_, p, hspan, hposition, ?_⟩
    intro front _
    have hopening : Awaiting.firstField.Follows (front ++ w ++ head.chars ++ v ++ ['(']) := by
      intro c hc
      rw [lastSolid?_concat _ (by decide)] at hc
      exact (Option.some.inj hc).symm
    have hbehind := hfound _ hopening
    simpa only [List.append_assoc, List.cons_append, List.nil_append] using hbehind
  | @unclosed a s u t head r inner hs hu hi ht =>
    obtain ⟨w, v, hw, hv, -, hspan⟩ := spans_of_bare hs (Cursor.spans_nil_iff.2 rfl)
    refine ⟨_, u.skipBlanks, hspan, rfl, ?_⟩
    intro front _
    obtain ⟨cs, ⟨hcs, -⟩, hd⟩ := hi.derives
    obtain rfl : r = cs := by simpa [ht] using hcs
    refine ⟨congrArg List.head? hu, ?_⟩
    rw [hu]
    exact (Awaiting.derives_firstField_iff.1 hd).balanced
  | @listed a s u m t head r r' inner e hs hu hi hm _ ih =>
    obtain ⟨is, his, -⟩ := hi.derives
    obtain ⟨cs, p, hcs, hposition, hfound⟩ := ih
    obtain ⟨w, v, hw, hv, hspan⟩ := spans_of_listed hs hu his hm hcs
    refine ⟨_, p, hspan, hposition, ?_⟩
    intro front _
    have hbehind := hfound (front ++ w ++ head.chars ++ v ++ '(' :: is ++ [')']) trivial
    simpa only [List.append_assoc, List.cons_append, List.nil_append] using hbehind

/-! ## The parser -/

/-- An error is found between two parts of the trimmed text, unless there is no text. -/
theorem exists_foundBetween_of_parse {text : String} {e : SyntaxError}
    (h : parse text = .error e) (hne : trimChars text.toList ≠ []) :
    ∃ before behind, trimChars text.toList = before ++ behind ∧ e.position = before.length ∧
      e.FoundBetween before behind := by
  rcases parse_eq_error_iff.1 h with ⟨hnil, -⟩ | ⟨-, ⟨t, hfails⟩ | ⟨fs, t, c, r, hreads, hr, rfl⟩⟩
  · exact absurd hnil hne
  · obtain ⟨cs, p, ⟨hrest, hspan⟩, hposition, hfound⟩ := hfails.foundBetween
    refine ⟨cs, p.rest, hrest, ?_, ?_⟩
    · rw [hposition, hspan, Cursor.start, Nat.zero_add]
    · have hstart : Awaiting.firstField.Follows [] := by simp [Awaiting.Follows, lastSolid?]
      exact hfound [] hstart
  · obtain ⟨cs, ⟨hrest, hspan⟩, hd⟩ := hreads.derives
    obtain rfl : c = ')' := hreads.atEnd c (by rw [hr]; rfl)
    refine ⟨cs, t.rest, hrest, ?_, congrArg List.head? hr, ?_⟩
    · rw [SyntaxError.position, hspan, Cursor.start, Nat.zero_add]
    · exact (Awaiting.derives_firstField_iff.1 hd).balanced

/-- The code of an error tells what stands at its place in the trimmed text, and what stands before
it or behind it. The end of a text where a field has to come is never reported as such. -/
theorem code_of_parse_eq_error {text : String} {e : SyntaxError} (h : parse text = .error e) :
    let t := trimChars text.toList
    let p := e.position
    p ≤ t.length ∧
    (e.code = "EMPTY_SHAPE" ↔ t = []) ∧
    (e.code = "MISSING_FIELD_BEFORE_COMMA" →
      t[p]? = some ',' ∧ ∀ c ∈ lastSolid? (t.take p), c = ',' ∨ c = '(') ∧
    (e.code = "TRAILING_COMMA" →
      (p = t.length ∨ t[p]? = some ')') ∧ lastSolid? (t.take p) = some ',') ∧
    (e.code = "UNEXPECTED_CHARACTER" → t[p]? = some ')' ∧ Balanced (t.take p)) ∧
    (e.code = "WILDCARD_ALIAS" → ['*'] <:+ t.take p ∧ [':', ':'] <+: t.drop p) ∧
    (e.code = "UNCLOSED_NESTED" → t[p]? = some '(' ∧ Balanced (t.drop (p + 1))) ∧
    (e.code = "INVALID_IDENTIFIER" →
      (p = t.length ∧ [':', ':'] <:+ t) ∨
      ∃ c, t[p]? = some c ∧ isIdentifierStart c = false ∧
        (¬ [':', ':'] <:+ t.take p → c ≠ ',' ∧ c ≠ ')' ∧ c ≠ '*' ∧ isBlank c = false)) ∧
    e.code ≠ "UNEXPECTED_END" := by
  intro t p
  by_cases hempty : t = []
  · obtain rfl : e = .emptyShape := by
      rcases parse_eq_error_iff.1 h with ⟨-, he⟩ | ⟨hne, -⟩
      · exact he
      · exact absurd hempty hne
    simp [SyntaxError.code, SyntaxError.position, hempty, p]
  · obtain ⟨before, behind, ht, hp, hfound⟩ :
        ∃ before behind, t = before ++ behind ∧ p = before.length ∧
          e.FoundBetween before behind := exists_foundBetween_of_parse h hempty
    have htake : t.take p = before := by rw [ht, hp, List.take_left]
    have hdrop : t.drop p = behind := by rw [ht, hp, List.drop_left]
    have htail : t.drop (p + 1) = behind.tail := by rw [← hdrop, List.tail_drop]
    have hat : t[p]? = behind.head? := by rw [← hdrop, List.head?_drop]
    have hlength : t.length = p + behind.length := by rw [ht, hp, List.length_append]
    have hend : p = t.length ↔ behind = [] := by
      rw [hlength, ← List.length_eq_zero_iff]
      omega
    have hle : p ≤ t.length := by omega
    rw [htake, hdrop, htail, hat, hend]
    cases e with
    | emptyShape => exact hfound.elim
    | unexpectedEnd => exact hfound.elim
    | identifierMissing =>
      have hall : before = t := by rw [ht, hfound.1, List.append_nil]
      simpa [SyntaxError.code, hempty, hle, hall, hfound.1] using hfound.2
    | identifierStart c =>
      obtain ⟨hc, hstart, hunless⟩ := hfound
      have hinvalid := Or.inr (a := behind = [] ∧ [':', ':'] <:+ t) hunless
      simpa [SyntaxError.code, hempty, hle, hc, hstart] using hinvalid
    | _ => simpa [SyntaxError.code, SyntaxError.FoundBetween, hempty, hle] using hfound

/-- A comma at the end of an inner list is reported behind the blanks that follow it. -/
theorem code_of_comma_before_parenthesis :
    parse " a(b, )" = .error (.trailingComma 5) ∧
      "a(b, )".toList[5]? = some ')' ∧ lastSolid? ("a(b, )".toList.take 5) = some ',' := by
  have htrim : trimChars " a(b, )".toList = ['a', '(', 'b', ',', ' ', ')'] := rfl
  have hfails : Fails .firstField (.start ['a', '(', 'b', ',', ' ', ')']) (.trailingComma 5)
      ⟨5, [')']⟩ := by
    have hinner : readHead (Cursor.skipBlanks ⟨2, ['b', ',', ' ', ')']⟩) =
        .ok (.named ⟨'b', [], rfl, by simp⟩ none, ⟨3, [',', ' ', ')']⟩) := rfl
    have houter : readHead (Cursor.start ['a', '(', 'b', ',', ' ', ')']).skipBlanks =
        .ok (.named ⟨'a', [], rfl, by simp⟩ none, ⟨1, ['(', 'b', ',', ' ', ')']⟩) := rfl
    refine .inside houter rfl (.bare hinner ?_ (.comma rfl (.trailing ?_)))
    · intro r hr
      cases hr
    · intro c hc
      exact (Option.some.inj hc).symm
  have herror : parse " a(b, )" = .error (.trailingComma 5) :=
    parse_eq_error_iff.2 (.inr ⟨by decide, .inl ⟨_, htrim ▸ hfails⟩⟩)
  obtain ⟨-, -, -, htrailing, -⟩ := code_of_parse_eq_error herror
  exact ⟨herror, by decide, (htrailing rfl).2⟩

end Shape
end RecordProjection
