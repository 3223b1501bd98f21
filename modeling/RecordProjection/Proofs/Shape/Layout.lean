import Mathlib.Data.List.Chain
import RecordProjection.Proofs.Shape.Positions
import RecordProjection.Proofs.Shape.Tokens

/-!
# Blanks between tokens

What a text stands for depends on its tokens alone, and blanks may be put between any two of them,
with one exception: none may stand beside the colons of an alias. A text of the same tokens as a
shape is that shape when it is tight, and is no shape at all otherwise.

## Main definitions

* `Text.Tight` : no blank stands beside a colon.
-/
namespace RecordProjection

open Text Shape

/-! ## Tight texts -/

namespace Text

/-- Two characters that can stand side by side: neither is a blank beside a colon. -/
def Fits (c d : Char) : Prop := ¬(isBlank c = true ∧ d = ':') ∧ ¬(c = ':' ∧ isBlank d = true)

/-- No blank stands beside a colon. -/
def Tight (cs : List Char) : Prop := cs.IsChain Fits

/-- A character that anything can stand beside. -/
def Firm (c : Char) : Prop := isBlank c = false ∧ c ≠ ':'

variable {c d : Char} {l r cs : List Char}

theorem Firm.fits_left (h : Firm c) (d : Char) : Fits c d := by
  refine ⟨fun hblank => ?_, fun hcolon => h.2 hcolon.1⟩
  rw [h.1] at hblank
  exact absurd hblank.1 (by decide)

theorem Firm.fits_right (h : Firm d) (c : Char) : Fits c d := by
  refine ⟨fun hcolon => h.2 hcolon.2, fun hblank => ?_⟩
  rw [h.1] at hblank
  exact absurd hblank.2 (by decide)

theorem firm_of_isFieldStart (h : isFieldStart c = true) : Firm c := by
  refine ⟨isBlank_of_isFieldStart h, ?_⟩
  rintro rfl
  exact absurd h (by decide)

theorem firm_of_isFieldEnd (h : isFieldEnd c = true) : Firm c := by
  refine ⟨isBlank_of_isFieldEnd h, ?_⟩
  rintro rfl
  exact absurd h (by decide)

/-- A text without blanks is tight. -/
theorem tight_of_isBlank_eq_false (h : ∀ c ∈ cs, isBlank c = false) : Tight cs := by
  refine (List.pairwise_of_forall_mem_list ?_).isChain
  intro c hc d hd
  simp [Fits, h c hc, h d hd]

/-- A text without colons is tight. -/
theorem tight_of_colon_notMem (h : ':' ∉ cs) : Tight cs := by
  refine (List.pairwise_of_forall_mem_list ?_).isChain
  intro c hc d hd
  have hc' : c ≠ ':' := ne_of_mem_of_not_mem hc h
  have hd' : d ≠ ':' := ne_of_mem_of_not_mem hd h
  simp [Fits, hc', hd']

theorem Blanks.colon_notMem (h : Blanks cs) : ':' ∉ cs := by
  intro hcolon
  exact absurd (h ':' hcolon) (by decide)

theorem Tight.append_of_left (hl : Tight l) (hr : Tight r) (h : ∀ c ∈ l.getLast?, Firm c) :
    Tight (l ++ r) :=
  List.isChain_append.2 ⟨hl, hr, fun c hc d _ => (h c hc).fits_left d⟩

theorem Tight.append_of_right (hl : Tight l) (hr : Tight r) (h : ∀ d ∈ r.head?, Firm d) :
    Tight (l ++ r) :=
  List.isChain_append.2 ⟨hl, hr, fun c _ d hd => (h d hd).fits_right c⟩

theorem Tight.cons (h : Tight cs) (hc : Firm c) : Tight (c :: cs) :=
  List.isChain_cons.2 ⟨fun d _ => hc.fits_left d, h⟩

theorem Tight.dropBlanks (h : Tight cs) : Tight (dropBlanks cs) :=
  h.suffix (List.dropWhile_suffix _)

/-- No blanks stand before a colon. -/
theorem Tight.eq_of_dropBlanks (h : Tight cs) (hr : Text.dropBlanks cs = ':' :: r) :
    cs = ':' :: r := by
  induction cs with
  | nil => cases hr
  | cons c cs ih =>
    by_cases hc : isBlank c = true
    · have hcs : cs = ':' :: r := by
        refine ih (h.suffix (List.suffix_cons c cs)) ?_
        rwa [Text.dropBlanks, List.dropWhile_cons_of_pos hc] at hr
      have hfits : Fits c ':' := (List.isChain_cons.1 h).1 ':' (by rw [hcs]; rfl)
      exact absurd ⟨hc, rfl⟩ hfits.1
    · rwa [Text.dropBlanks, List.dropWhile_cons_of_neg hc] at hr

/-- No blanks stand behind a colon. -/
theorem Tight.dropBlanks_eq_of_cons (h : Tight (':' :: cs)) : Text.dropBlanks cs = cs := by
  refine dropBlanks_eq_self ?_
  intro c hc
  have hfits := (List.isChain_cons.1 h).1 c hc
  exact Bool.eq_false_iff.2 fun hblank => hfits.2 ⟨rfl, hblank⟩

theorem fits_iff_of_isBlank_left (hc : isBlank c = true) : Fits c d ↔ d ≠ ':' := by
  have hcolon : c ≠ ':' := by
    rintro rfl
    exact absurd hc (by decide)
  simp [Fits, hc, hcolon]

theorem fits_iff_of_isBlank_right (hd : isBlank d = true) : Fits c d ↔ c ≠ ':' := by
  have hcolon : d ≠ ':' := by
    rintro rfl
    exact absurd hd (by decide)
  simp [Fits, hd, hcolon]

/-- Blanks that are put into a tight text leave it tight unless they stand beside a colon. -/
theorem Tight.insert_iff {w : List Char} (h : Tight (l ++ r)) (hw : Blanks w) (hne : w ≠ []) :
    Tight (l ++ w ++ r) ↔ l.getLast? ≠ some ':' ∧ r.head? ≠ some ':' := by
  obtain ⟨hl, hr, -⟩ := List.isChain_append.1 h
  have hwtight : Tight w := tight_of_colon_notMem hw.colon_notMem
  have hfront : (∀ c ∈ l.getLast?, ∀ d ∈ w.head?, Fits c d) ↔ l.getLast? ≠ some ':' := by
    obtain ⟨b, hb⟩ := Option.ne_none_iff_exists'.1 (mt List.head?_eq_none_iff.1 hne)
    have hfits (c : Char) : Fits c b ↔ c ≠ ':' :=
      fits_iff_of_isBlank_right (hw b (List.mem_of_mem_head? hb))
    rw [hb]
    cases l.getLast? <;> simp [hfits]
  have hback : (∀ c ∈ (l ++ w).getLast?, ∀ d ∈ r.head?, Fits c d) ↔ r.head? ≠ some ':' := by
    obtain ⟨b, hb⟩ := Option.ne_none_iff_exists'.1 (mt List.getLast?_eq_none_iff.1 hne)
    have hfits (d : Char) : Fits b d ↔ d ≠ ':' :=
      fits_iff_of_isBlank_left (hw b (List.mem_of_getLast? hb))
    rw [List.getLast?_append_of_ne_nil _ hne, hb]
    cases r.head? <;> simp [hfits]
  rw [Tight, List.isChain_append, List.isChain_append, hfront, hback]
  constructor
  · rintro ⟨⟨-, -, hl'⟩, -, hr'⟩
    exact ⟨hl', hr'⟩
  · rintro ⟨hl', hr'⟩
    exact ⟨⟨hl, hwtight, hl'⟩, hr, hr'⟩

end Text

/-! ## Texts of fields are tight -/

theorem FieldHead.tight_chars (head : FieldHead) : Tight head.chars := by
  refine tight_of_isBlank_eq_false ?_
  intro c hc
  cases head with
  | wildcard =>
    obtain rfl : c = '*' := by simpa [chars] using hc
    decide
  | named name key =>
    have hparts : c ∈ name.chars ∨ c = ':' ∨ ∃ i ∈ key, c ∈ i.chars := by
      cases key with
      | none => exact .inl hc
      | some i => simpa [chars] using hc
    rcases hparts with hname | rfl | ⟨i, -, hkey⟩
    · exact isBlank_of_isIdentifierPart (name.isIdentifierPart_of_mem hname)
    · decide
    · exact isBlank_of_isIdentifierPart (i.isIdentifierPart_of_mem hkey)

theorem Separates.tight {l r s : List Char} (h : Separates l r s) : Tight s := by
  refine tight_of_colon_notMem ?_
  cases h with
  | comma hw hw' => simp [hw.colon_notMem, hw'.colon_notMem]
  | blanks hw _ => exact hw.colon_notMem

theorem DerivesFields.firm_head? {cs : List Char} {fs : List FieldSpec}
    (h : DerivesFields cs fs) : ∀ c ∈ cs.head?, Firm c := by
  obtain ⟨c, r, rfl, hc⟩ := h.eq_cons
  intro d hd
  obtain rfl : c = d := by simpa using hd
  exact firm_of_isFieldStart hc

mutual

theorem DerivesField.tight {cs : List Char} {f : FieldSpec} : DerivesField cs f → Tight cs
  | .bare head => head.tight_chars
  | .listed head hw h => by
    have hblanks := tight_of_colon_notMem hw.colon_notMem
    have hfront := head.tight_chars.append_of_left hblanks fun c hc =>
      firm_of_isFieldEnd (head.isFieldEnd_getLast? c hc)
    have hopening : Firm '(' := ⟨rfl, by decide⟩
    have hclosing : Firm ')' := ⟨rfl, by decide⟩
    have hinner := hfront.append_of_right (h.tight.cons hopening) (by simp [hopening])
    exact hinner.append_of_right (List.isChain_singleton ')') (by simp [hclosing])

theorem DerivesFields.tight {cs : List Char} {fs : List FieldSpec} :
    DerivesFields cs fs → Tight cs
  | .one h => h.tight
  | .more h hs h' =>
    (h.tight.append_of_left hs.tight fun c hc =>
      firm_of_isFieldEnd (h.isFieldEnd_getLast? c hc)).append_of_right h'.tight h'.firm_head?

/-- The text of a list of fields is tight. -/
theorem DerivesList.tight {cs : List Char} {fs : List FieldSpec} : DerivesList cs fs → Tight cs
  | .blank hw => tight_of_colon_notMem hw.colon_notMem
  | .fields hw h hw' => by
    have hfront := (tight_of_colon_notMem hw.colon_notMem).append_of_right h.tight h.firm_head?
    refine hfront.append_of_left (tight_of_colon_notMem hw'.colon_notMem) ?_
    intro c hc
    obtain ⟨d, r, hd, -⟩ := h.eq_cons
    rw [List.getLast?_append_of_ne_nil _ (by simp [hd])] at hc
    exact firm_of_isFieldEnd (h.isFieldEnd_getLast? c hc)

end

/-! ## Tight texts of the same tokens are read alike -/

/-- What follows a mark in a tight text is tight. -/
theorem Text.Tight.of_mark {cs : List Char} {c : Char} {xs : List Token} (h : Tight cs)
    (hcs : tokens cs = .mark c :: xs) :
    ∃ r, Text.dropBlanks cs = c :: r ∧ tokens r = xs ∧ Tight r := by
  obtain ⟨r, hr, -, hrest⟩ := tokens_eq_cons_iff.1 hcs
  have hcs' : Text.dropBlanks cs = c :: r := hr
  have hdropped : Tight (c :: r) := hcs' ▸ h.dropBlanks
  exact ⟨r, hr, hrest, hdropped.suffix (List.suffix_cons c r)⟩

theorem FieldHead.head?_tokens_append_ne (head : FieldHead) (xs : List Token) :
    (head.tokens ++ xs).head? ≠ some .colons := by
  cases head with
  | wildcard => simp [tokens]
  | named name key => cases key <;> simp [tokens]

namespace Shape

/-- A list ends where no token is left, or where the next one closes it. -/
theorem atEnd_dropBlanks_iff {cs : List Char} :
    AtEnd (dropBlanks cs) ↔ ∀ x ∈ (tokens cs).head?, x = .mark ')' := by
  cases htokens : tokens cs with
  | nil =>
    rw [tokens_eq_nil_iff, ← dropBlanks_eq_nil_iff] at htokens
    simp [AtEnd, htokens]
  | cons x xs =>
    obtain ⟨r, hr, hx, -⟩ := tokens_eq_cons_iff.1 htokens
    simp only [AtEnd, hr, List.head?_cons, Option.mem_some_iff, forall_eq']
    cases x with
    | identifier i =>
      have hfirst : i.first ≠ ')' := by
        intro hparen
        have hstart := i.isIdentifierStart_first
        rw [hparen] at hstart
        exact absurd hstart (by decide)
      simp [Token.chars, Identifier.chars, hfirst]
    | colons => simp [Token.chars]
    | mark c => simp [Token.chars]

/-- What is read does not begin with colons. -/
theorem Reads.head?_tokens_ne {a : Awaiting} {s t : Cursor} {fs : List FieldSpec}
    (h : Reads a s fs t) : (tokens s.rest).head? ≠ some .colons := by
  cases h with
  | stop _ hs =>
    intro hcolons
    exact nomatch atEnd_dropBlanks_iff.1 hs _ hcolons
  | comma hs _ =>
    rw [tokens_of_mark hs (by decide)]
    simp
  | @bare _ _ _ _ head _ hs _ _ =>
    rw [tokens_of_readHead hs]
    exact head.head?_tokens_append_ne _
  | @listed _ _ _ _ _ head _ _ _ _ hs _ _ _ _ =>
    rw [tokens_of_readHead hs]
    exact head.head?_tokens_append_ne _

theorem readColons?_of_tokens {r : List Char} (h : (tokens r).head? ≠ some .colons) :
    readColons? r = none := by
  rw [Option.eq_none_iff_forall_ne_some]
  intro r' hr'
  rw [readColons?_eq_some_iff] at hr'
  have hself : dropBlanks r = r := dropBlanks_eq_self (by simp [hr', isBlank])
  have htokens : tokens r = .colons :: tokens r' :=
    tokens_eq_cons_iff.2 ⟨r', hself.trans hr', trivial, rfl⟩
  exact h (by rw [htokens]; rfl)

/-- A head is read at a place in a tight text where its tokens stand. -/
theorem readHead_of_tokens {s : Cursor} {head : FieldHead} {xs : List Token}
    (hs : tokens s.rest = head.tokens ++ xs) (htight : Tight s.rest)
    (hxs : xs.head? ≠ some .colons) :
    ∃ u, readHead s.skipBlanks = .ok (head, u) ∧ tokens u.rest = xs ∧ Tight u.rest := by
  -- it is enough to find the text of the head, and where it ends
  suffices hspan : ∃ r, dropBlanks s.rest = head.chars ++ r ∧ head.EndsBefore r ∧
      tokens r = xs by
    obtain ⟨r, hr, hends, hrest⟩ := hspan
    have hdropped : Tight (head.chars ++ r) := hr ▸ htight.dropBlanks
    exact ⟨⟨s.skipBlanks.position + head.chars.length, r⟩, readHead_of_spans ⟨hr, rfl⟩ hends,
      hrest, hdropped.suffix (List.suffix_append _ _)⟩
  cases head with
  | wildcard =>
    obtain ⟨r, hr, -, rfl⟩ := tokens_eq_cons_iff.1 hs
    exact ⟨r, hr, readColons?_of_tokens hxs, rfl⟩
  | named name key =>
    cases key with
    | none =>
      obtain ⟨r, hr, hname, rfl⟩ := tokens_eq_cons_iff.1 hs
      exact ⟨r, hr, ⟨hname, readColons?_of_tokens hxs⟩, rfl⟩
    | some key =>
      obtain ⟨r, hr, hname, hcolons⟩ := tokens_eq_cons_iff.1 hs
      obtain ⟨r₁, hr₁, -, hkey⟩ := tokens_eq_cons_iff.1 hcolons
      obtain ⟨r₂, hr₂, hends, hrest⟩ := tokens_eq_cons_iff.1 hkey
      -- no blanks stand before or behind the colons
      have hbehind : Tight r := by
        have hdropped : Tight (name.chars ++ r) := hr ▸ htight.dropBlanks
        exact hdropped.suffix (List.suffix_append _ _)
      have hbefore : r = ':' :: ':' :: r₁ := hbehind.eq_of_dropBlanks hr₁
      have hcolon : Tight (':' :: r₁) := (hbefore ▸ hbehind).suffix (List.suffix_cons _ _)
      refine ⟨r₂, ?_, hends, hrest⟩
      rw [hr, hbefore, ← hcolon.dropBlanks_eq_of_cons, hr₂, FieldHead.chars, List.append_assoc]
      rfl

/-- No blanks stand where a reading stops. -/
theorem Reads.dropBlanks_stop {a : Awaiting} {s t : Cursor} {fs : List FieldSpec}
    (h : Reads a s fs t) : dropBlanks t.rest = t.rest :=
  dropBlanks_eq_self fun c hc => (h.atEnd.not_opening c hc).1

/-- Tight texts of the same tokens are read alike. -/
theorem Reads.of_tokens {a : Awaiting} {s t : Cursor} {fs : List FieldSpec}
    (h : Reads a s fs t) (s' : Cursor) (htokens : tokens s'.rest = tokens s.rest)
    (htight : Tight s'.rest) :
    ∃ t', Reads a s' fs t' ∧ tokens t'.rest = tokens t.rest ∧ Tight t'.rest := by
  induction h generalizing s' with
  | @stop a s ha hs =>
    refine ⟨s'.skipBlanks, .stop ha ?_, ?_, htight.dropBlanks⟩
    · have hend := atEnd_dropBlanks_iff.1 hs
      rw [← htokens] at hend
      exact atEnd_dropBlanks_iff.2 hend
    · rw [Cursor.skipBlanks, Cursor.skipBlanks, tokens_dropBlanks, tokens_dropBlanks, htokens]
  | @comma s t r fs hs _ ih =>
    rw [tokens_of_mark hs (by decide)] at htokens
    obtain ⟨r', hr', hrest, htight'⟩ := htight.of_mark htokens
    obtain ⟨t', h', ht'⟩ := ih ⟨s'.skipBlanks.position + 1, r'⟩ hrest htight'
    exact ⟨t', .comma hr' h', ht'⟩
  | @bare a s u t head fs hs hu h ih =>
    rw [tokens_of_readHead hs] at htokens
    have hnext : tokens u.skipBlanks.rest = tokens u.rest := tokens_dropBlanks u.rest
    obtain ⟨u', hs', hu', htight'⟩ := readHead_of_tokens htokens htight (hnext ▸ h.head?_tokens_ne)
    have hnext' : tokens u'.skipBlanks.rest = tokens u.skipBlanks.rest := by
      rw [hnext, ← hu']
      exact tokens_dropBlanks u'.rest
    obtain ⟨t', h', ht'⟩ := ih u'.skipBlanks hnext' htight'.dropBlanks
    refine ⟨t', .bare hs' ?_ h', ht'⟩
    intro r hr
    have hopening := hu'.symm.trans (tokens_of_mark hr (by decide))
    obtain ⟨r', hr', -⟩ := tokens_eq_cons_iff.1 hopening
    exact hu r' hr'
  | @listed a s u m t head r r' inner fs hs hu hi hm _ ihi ih =>
    rw [tokens_of_readHead hs] at htokens
    have hopening := tokens_of_mark hu (by decide)
    obtain ⟨u', hs', hu', htight'⟩ := readHead_of_tokens htokens htight (by simp [hopening])
    obtain ⟨x, hx, hxs, hxtight⟩ := htight'.of_mark (hu'.trans hopening)
    obtain ⟨m', hi', hm', hmtight⟩ := ihi ⟨u'.skipBlanks.position + 1, x⟩ hxs hxtight
    have hclosing := tokens_of_mark (hi.dropBlanks_stop.trans hm) (by decide)
    obtain ⟨y, hy, hys, hytight⟩ := hmtight.of_mark (hm'.trans hclosing)
    obtain ⟨t', h', ht'⟩ := ih ⟨m'.position + 1, y⟩ hys hytight
    exact ⟨t', .listed hs' hx hi' (hi'.dropBlanks_stop.symm.trans hy) h', ht'⟩

end Shape

/-- Tight texts of the same tokens have the same fields. -/
theorem DerivesList.of_tokens {cs cs' : List Char} {fs : List FieldSpec} (h : DerivesList cs fs)
    (htokens : tokens cs' = tokens cs) (htight : Tight cs') : DerivesList cs' fs := by
  obtain ⟨t, hreads, ht⟩ := reads_start_iff.2 h
  obtain ⟨t', hreads', ht', -⟩ := hreads.of_tokens (.start cs') htokens htight
  refine reads_start_iff.1 ⟨t', hreads', ?_⟩
  -- no token is left, and no blanks either
  rw [ht, tokens_eq_nil_iff.2 blanks_nil, tokens_eq_nil_iff, ← dropBlanks_eq_nil_iff,
    hreads'.dropBlanks_stop] at ht'
  exact ht'

/-! ## The parser -/

theorem DerivesList.between {w cs w' : List Char} {fs : List FieldSpec} (h : DerivesList cs fs)
    (hw : Blanks w) (hw' : Blanks w') : DerivesList (w ++ cs ++ w') fs := by
  cases h with
  | blank hcs => exact .blank ((hw.append hcs).append hw')
  | @fields v body v' _ hv h hv' =>
    have hbody := DerivesList.fields (hw.append hv) h (hv'.append hw')
    simpa only [List.append_assoc] using hbody

namespace Shape

/-- Trimming does not matter to the grammar. -/
theorem parse_eq_ok_iff_derivesList {text : String} {s : Shape} :
    parse text = .ok s ↔ DerivesList text.toList s.fields ∧ s.fields ≠ [] ∧
      s.isFlat = false ∧ s.isFlatLists = false := by
  rw [parse_eq_ok_iff]
  constructor
  · rintro ⟨hd, hflags⟩
    obtain ⟨w, w', hw, hw', htext⟩ := exists_blanks_around_trimChars text.toList
    refine ⟨?_, hflags⟩
    rw [htext]
    exact hd.between hw hw'
  · rintro ⟨hd, hne, hflags⟩
    exact ⟨hd.trim hne, hne, hflags⟩

/-- A text of the same tokens as a shape stands for this shape when it is tight, and for none
otherwise. -/
theorem parse_eq_ok_iff_tight {text text' : String} {s : Shape} (h : parse text = .ok s)
    (htokens : tokens text'.toList = tokens text.toList) :
    parse text' = .ok s ↔ Tight text'.toList := by
  obtain ⟨hd, hflags⟩ := parse_eq_ok_iff_derivesList.1 h
  rw [parse_eq_ok_iff_derivesList]
  constructor
  · rintro ⟨hd', -⟩
    exact hd'.tight
  · intro htight
    exact ⟨hd.of_tokens htokens htight, hflags⟩

/-- What stands for a shape is tight, and a text of the same tokens stands for the same shape when it
is tight too, and for no other one. So blanks may be put between any two tokens of a shape but beside
the colons of an alias, where they leave no shape. -/
theorem blanks_between_tokens (text : String) :
    (∀ s, parse text = .ok s → Tight text.toList) ∧
    (∀ text' s, parse text = .ok s → tokens text'.toList = tokens text.toList →
      (parse text' = .ok s ↔ Tight text'.toList)) ∧
    ∀ l w r s, parse text = .ok s → text.toList = l ++ r →
      tokens (l ++ r) = tokens l ++ tokens r → Blanks w → w ≠ [] →
      (parse (String.ofList (l ++ w ++ r)) = .ok s ↔
        l.getLast? ≠ some ':' ∧ r.head? ≠ some ':') := by
  have htight (s : Shape) (h : parse text = .ok s) : Tight text.toList :=
    (parse_eq_ok_iff_derivesList.1 h).1.tight
  refine ⟨htight, ?_, ?_⟩
  · intro text' s h htokens
    exact parse_eq_ok_iff_tight h htokens
  · intro l w r s h htext hgap hw hne
    have htokens : tokens (String.ofList (l ++ w ++ r)).toList = tokens text.toList := by
      rw [String.toList_ofList, htext]
      exact tokens_insert hw hgap
    have hlr : Tight (l ++ r) := htext ▸ htight s h
    rw [parse_eq_ok_iff_tight h htokens, String.toList_ofList, hlr.insert_iff hw hne]

/-- Blanks around the colons of an alias leave no shape. -/
theorem spaced_alias_is_no_shape :
    (∃ s, parse "key::id" = .ok s) ∧ tokens "key :: id".toList = tokens "key::id".toList ∧
      parse "key :: id" = .error (.identifierStart ':' 4) := by
  let key : Identifier := ⟨'k', ['e', 'y'], rfl, List.all_eq_true.1 rfl⟩
  let id : Identifier := ⟨'i', ['d'], rfl, List.all_eq_true.1 rfl⟩
  have htokens (r r' : List Char) (hr : dropBlanks r = ':' :: ':' :: r')
      (hr' : dropBlanks r' = ['i', 'd']) (hends : EndsIdentifier r) :
      tokens (key.chars ++ r) = [.identifier key, .colons, .identifier id] := by
    have hend : EndsIdentifier [] := by simp [EndsIdentifier]
    have hid : tokens r' = [.identifier id] :=
      tokens_eq_cons_iff.2 ⟨[], hr', hend, tokens_eq_nil_iff.2 blanks_nil⟩
    exact tokens_eq_cons_iff.2 ⟨r, rfl, hends, tokens_eq_cons_iff.2 ⟨r', hr, trivial, hid⟩⟩
  refine ⟨⟨⟨[(FieldHead.named key (some id)).field none], false, false⟩, ?_⟩, ?_, ?_⟩
  · have hfields : DerivesFields ['k', 'e', 'y', ':', ':', 'i', 'd']
        [(FieldHead.named key (some id)).field none] := .one (.bare (.named key (some id)))
    exact parse_eq_ok_iff_derivesList.2 ⟨hfields.derivesList, by simp, rfl, rfl⟩
  · have hspaced := htokens [' ', ':', ':', ' ', 'i', 'd'] [' ', 'i', 'd'] rfl rfl
      (endsIdentifier_cons.2 rfl)
    have hclose := htokens [':', ':', 'i', 'd'] ['i', 'd'] rfl rfl
      (endsIdentifier_cons.2 rfl)
    exact hspaced.trans hclose.symm
  · have hread : readHead (Cursor.start "key :: id".toList).skipBlanks =
        .ok (.named key none, ⟨3, [' ', ':', ':', ' ', 'i', 'd']⟩) := rfl
    have hfails : Fails .firstField (.start "key :: id".toList) (.identifierStart ':' 4)
        ⟨4, [':', ':', ' ', 'i', 'd']⟩ := by
      refine .bare hread ?_ (.head rfl (by decide) (by decide) (.name rfl (by decide) rfl))
      intro r hr
      cases hr
    exact parse_eq_error_iff.2 (.inr ⟨by decide, .inl ⟨_, hfails⟩⟩)

end Shape
end RecordProjection
