import RecordProjection.Proofs.Shape.Reading

/-!
# The language of the parser

The parser accepts exactly the texts that the grammar derives, and builds their only tree. Readings
stand between the two: each reading derives the text it passes over, and each derivation is read
wherever its list ends.
-/
namespace RecordProjection

open Text Shape

theorem FieldHead.EndsBefore.apart {head : FieldHead} {r : List Char} (h : head.EndsBefore r) :
    Apart head.chars r := by
  intro c hc d hd ⟨hc', hd'⟩
  cases head with
  | wildcard =>
    obtain rfl : '*' = c := by simpa [chars] using hc
    exact absurd hc' (by decide)
  | named name key =>
    have hend : EndsIdentifier r := by
      cases key with
      | none => exact h.1
      | some key => exact h
    simp [hend d hd] at hd'

namespace Shape

/-- What each state of the descent takes on its way to the end of a list. -/
inductive Awaiting.Derives : Awaiting → List Char → List FieldSpec → Prop
  | blank {a : Awaiting} {w : List Char} (ha : a ≠ .fieldAfterComma) (hw : Blanks w) :
      Derives a w []
  | fields {a : Awaiting} {w cs w' : List Char} {fs : List FieldSpec} (hw : Blanks w)
      (h : DerivesFields cs fs) (hw' : Blanks w') : Derives a (w ++ cs ++ w') fs
  | comma {w cs : List Char} {fs : List FieldSpec} (hw : Blanks w)
      (h : Derives .fieldAfterComma cs fs) : Derives .separator (w ++ ',' :: cs) fs

namespace Awaiting

theorem derives_firstField_iff {cs : List Char} {fs : List FieldSpec} :
    Derives .firstField cs fs ↔ DerivesList cs fs := by
  constructor
  · intro h
    cases h with
    | blank _ hw => exact .blank hw
    | fields hw h hw' => exact .fields hw h hw'
  · intro h
    cases h with
    | blank hw => exact .blank (by decide) hw
    | fields hw h hw' => exact .fields hw h hw'

theorem Derives.blanks_append {a : Awaiting} {v cs : List Char} {fs : List FieldSpec}
    (h : a.Derives cs fs) (hv : Blanks v) : a.Derives (v ++ cs) fs := by
  cases h with
  | blank ha hw => exact .blank ha (hv.append hw)
  | @fields _ w cs w' _ hw h hw' =>
    have := Derives.fields (a := a) (hv.append hw) h hw'
    simpa only [List.append_assoc] using this
  | @comma w cs _ hw h =>
    have := Derives.comma (hv.append hw) h
    simpa only [List.append_assoc] using this

/-- A field goes in front of what a list goes on with. -/
theorem Derives.cons {a : Awaiting} {cs ds : List Char} {f : FieldSpec} {fs : List FieldSpec}
    (h : Derives .separator ds fs) (hf : DerivesField cs f) (hapart : Apart cs ds) :
    a.Derives (cs ++ ds) (f :: fs) := by
  cases h with
  | blank _ hw => exact .fields blanks_nil (.one hf) hw
  | @fields _ w body w' _ hw h hw' =>
    have hs : Separates cs body w := by
      refine .blanks hw ?_
      rintro rfl
      exact hapart.of_append
    have := Derives.fields (a := a) blanks_nil (.more hf hs h) hw'
    simpa only [List.append_assoc, List.nil_append] using this
  | @comma w _ _ hw h =>
    cases h with
    | blank ha => exact absurd rfl ha
    | @fields _ v body w' _ hv h hw' =>
      have hs : Separates cs body (w ++ ',' :: v) := .comma hw hv
      have := Derives.fields (a := a) blanks_nil (.more hf hs h) hw'
      simpa only [List.append_assoc, List.cons_append, List.nil_append] using this

end Awaiting

/-! ## Every reading is a derivation -/

/-- The text from before a field without a list to a place behind it. -/
theorem spans_of_bare {s u t : Cursor} {head : FieldHead} {cs : List Char}
    (hs : readHead s.skipBlanks = .ok (head, u)) (ht : u.skipBlanks.Spans cs t) :
    ∃ w v, Blanks w ∧ Blanks v ∧ Apart head.chars (v ++ cs) ∧
      s.Spans (w ++ (head.chars ++ (v ++ cs))) t := by
  obtain ⟨w, hw, hspan⟩ := s.spans_skipBlanks
  obtain ⟨v, hv, hspan'⟩ := u.spans_skipBlanks
  obtain ⟨hhead, hends⟩ := spans_of_readHead hs
  have hbehind := hspan'.trans ht
  have hapart : Apart head.chars (v ++ cs) := by
    have hrest := hends.apart
    rw [hbehind.1] at hrest
    exact hrest.of_append
  exact ⟨w, v, hw, hv, hapart, hspan.trans (hhead.trans hbehind)⟩

/-- The text from before a field with a list to a place inside the list. -/
theorem spans_of_opening {s u t : Cursor} {head : FieldHead} {r cs : List Char}
    (hs : readHead s.skipBlanks = .ok (head, u)) (hu : u.skipBlanks.rest = '(' :: r)
    (ht : (⟨u.skipBlanks.position + 1, r⟩ : Cursor).Spans cs t) :
    ∃ w v, Blanks w ∧ Blanks v ∧ s.Spans (w ++ (head.chars ++ v ++ '(' :: cs)) t := by
  have hlist : u.skipBlanks.Spans ('(' :: cs) t := Cursor.Spans.cons_iff.2 ⟨r, hu, ht⟩
  obtain ⟨w, v, hw, hv, -, hspan⟩ := spans_of_bare hs hlist
  refine ⟨w, v, hw, hv, ?_⟩
  rwa [List.append_assoc head.chars]

/-- The text from before a field with a list to a place behind the list. -/
theorem spans_of_listed {s u m t : Cursor} {head : FieldHead} {r r' is cs : List Char}
    (hs : readHead s.skipBlanks = .ok (head, u)) (hu : u.skipBlanks.rest = '(' :: r)
    (his : (⟨u.skipBlanks.position + 1, r⟩ : Cursor).Spans is m) (hm : m.rest = ')' :: r')
    (ht : (⟨m.position + 1, r'⟩ : Cursor).Spans cs t) :
    ∃ w v, Blanks w ∧ Blanks v ∧
      s.Spans (w ++ (head.chars ++ v ++ '(' :: is ++ [')'] ++ cs)) t := by
  have hclose : m.Spans (')' :: cs) t := Cursor.Spans.cons_iff.2 ⟨r', hm, ht⟩
  obtain ⟨w, v, hw, hv, hspan⟩ := spans_of_opening hs hu (his.trans hclose)
  refine ⟨w, v, hw, hv, ?_⟩
  simpa only [List.append_assoc, List.cons_append, List.nil_append] using hspan

theorem Reads.derives {a : Awaiting} {s t : Cursor} {fs : List FieldSpec} (h : Reads a s fs t) :
    ∃ cs, s.Spans cs t ∧ a.Derives cs fs := by
  induction h with
  | @stop a s ha hs =>
    obtain ⟨w, hw, hspan⟩ := s.spans_skipBlanks
    exact ⟨w, hspan, .blank ha hw⟩
  | @comma s t r fs hs _ ih =>
    obtain ⟨w, hw, hspan⟩ := s.spans_skipBlanks
    obtain ⟨cs, hcs, hd⟩ := ih
    exact ⟨w ++ ',' :: cs, hspan.trans (Cursor.Spans.cons_iff.2 ⟨r, hs, hcs⟩), .comma hw hd⟩
  | @bare a s u t head fs hs hu _ ih =>
    obtain ⟨cs, hcs, hd⟩ := ih
    obtain ⟨w, v, hw, hv, hapart, hspan⟩ := spans_of_bare hs hcs
    have hfield := (hd.blanks_append hv).cons (a := a) (.bare head) hapart
    exact ⟨_, hspan, hfield.blanks_append hw⟩
  | @listed a s u m t head r r' inner fs hs hu _ hm _ ihi ih =>
    obtain ⟨is, his, hdi⟩ := ihi
    obtain ⟨cs, hcs, hd⟩ := ih
    obtain ⟨w, v, hw, hv, hspan⟩ := spans_of_listed hs hu his hm hcs
    have hf : DerivesField (head.chars ++ v ++ '(' :: is ++ [')']) (head.field (some inner)) :=
      .listed head hv (Awaiting.derives_firstField_iff.1 hdi)
    have hfield := hd.cons (a := a) hf (.of_last (by decide))
    exact ⟨_, hspan, hfield.blanks_append hw⟩

/-! ## Every derivation is read -/

theorem Reads.congr_skipBlanks {a : Awaiting} {s s' t : Cursor} {fs : List FieldSpec}
    (h : Reads a s fs t) (hs : s'.skipBlanks = s.skipBlanks) : Reads a s' fs t := by
  cases h with
  | stop ha he =>
    rw [← hs] at he ⊢
    exact .stop ha he
  | comma hc h =>
    rw [← hs] at hc h
    exact .comma hc h
  | bare hh hu h => exact .bare (hs ▸ hh) hu h
  | listed hh hu hi hm h => exact .listed (hs ▸ hh) hu hi hm h

/-- Blanks in front change nothing. -/
theorem Reads.blanks {a : Awaiting} {s s' t : Cursor} {w : List Char} {fs : List FieldSpec}
    (h : Reads a s fs t) (hw : Blanks w) (hs : s'.Spans w s) : Reads a s' fs t :=
  h.congr_skipBlanks (hs.skipBlanks_eq hw)

end Shape

/-- The text behind a field leaves it as it is: it neither lengthens the identifier at its end nor
gives it an alias or a list. -/
def FollowsField (cs r : List Char) : Prop :=
  Apart cs r ∧ ∀ c ∈ (dropBlanks r).head?, c ≠ '(' ∧ c ≠ ':'

theorem EndsIdentifier.apart {cs r : List Char} (h : EndsIdentifier r) : Apart cs r := by
  intro c _ d hd hparts
  rw [h d hd] at hparts
  exact absurd hparts.2 (by decide)

theorem Apart.blanks_append {cs w r : List Char} (h : w = [] → Apart cs r) (hw : Blanks w) :
    Apart cs (w ++ r) := by
  cases w with
  | nil => exact h rfl
  | cons b w =>
    refine EndsIdentifier.apart ?_
    intro c hc
    obtain rfl : b = c := by simpa using hc
    exact Bool.eq_false_iff.2 fun hb => by
      simpa [isBlank_of_isIdentifierPart hb] using hw b (by simp)

theorem followsField_blanks_append {cs w r : List Char} (hw : Blanks w)
    (hr : ∀ c ∈ r.head?, isBlank c = false ∧ c ≠ '(' ∧ c ≠ ':') (hapart : w = [] → Apart cs r) :
    FollowsField cs (w ++ r) := by
  refine ⟨.blanks_append hapart hw, ?_⟩
  intro c hc
  rw [hw.dropBlanks_append, dropBlanks_eq_self fun c hc => (hr c hc).1] at hc
  exact (hr c hc).2

theorem Identifier.endsIdentifier_of_apart {i : Identifier} {cs r : List Char}
    (h : Apart (cs ++ i.chars) r) : EndsIdentifier r := by
  intro d hd
  have hlast : i.chars.getLast i.chars_ne_nil ∈ (cs ++ i.chars).getLast? := by
    simp [List.getLast?_eq_some_getLast i.chars_ne_nil]
  have hpart : isIdentifierPart (i.chars.getLast i.chars_ne_nil) = true :=
    i.isIdentifierPart_of_mem (List.getLast_mem i.chars_ne_nil)
  exact Bool.eq_false_iff.2 fun hd' => h _ hlast d hd ⟨hpart, hd'⟩

theorem FieldHead.endsBefore_of_apart {head : FieldHead} {r : List Char}
    (h : Apart head.chars r) (hr : ∀ c ∈ (dropBlanks r).head?, c ≠ ':') : head.EndsBefore r := by
  have hcolons : readColons? r = none := by
    cases hc : readColons? r with
    | none => rfl
    | some r' =>
      rw [readColons?_eq_some_iff] at hc
      have hself : dropBlanks r = r := dropBlanks_eq_self (by simp [hc, isBlank])
      exact absurd rfl (hr ':' (by rw [hself, hc]; rfl))
  cases head with
  | wildcard => exact hcolons
  | named name key =>
    cases key with
    | none => exact ⟨@Identifier.endsIdentifier_of_apart name [] r h, hcolons⟩
    | some key =>
      refine @Identifier.endsIdentifier_of_apart key (name.chars ++ [':', ':']) r ?_
      simpa [FieldHead.chars] using h

namespace Shape

theorem skipBlanks_eq_self_of_head {s u : Cursor} {head : FieldHead} (h : s.Spans head.chars u) :
    s.skipBlanks = s := by
  refine Cursor.skipBlanks_eq_self ?_
  intro c hc
  obtain ⟨d, r, hr, hd⟩ := head.chars_eq_cons
  obtain rfl : d = c := by simpa [h.1, hr] using hc
  exact isBlank_of_isFieldStart hd

theorem Reads.of_bare {a : Awaiting} {s u t : Cursor} {head : FieldHead}
    {fs : List FieldSpec} (hs : s.Spans head.chars u) (hu : FollowsField head.chars u.rest)
    (h : Reads .separator u fs t) : Reads a s (head.field none :: fs) t := by
  have hread := readHead_of_spans hs (head.endsBefore_of_apart hu.1 fun c hc => (hu.2 c hc).2)
  rw [← skipBlanks_eq_self_of_head hs] at hread
  refine .bare hread ?_ (h.congr_skipBlanks u.skipBlanks_skipBlanks)
  intro r hr
  have hparen : '(' ∈ (dropBlanks u.rest).head? := congrArg List.head? hr
  exact absurd rfl (hu.2 '(' hparen).1

/-- A list that opens behind a head and blanks is the next thing to be read. -/
theorem readHead_of_opening {s u : Cursor} {head : FieldHead} {w r : List Char}
    (hs : s.Spans head.chars u) (hw : Blanks w) (hu : u.rest = w ++ '(' :: r) :
    readHead s.skipBlanks = .ok (head, u) ∧ u.skipBlanks.rest = '(' :: r := by
  have hdrop : dropBlanks (w ++ '(' :: r) = '(' :: r := by
    rw [hw.dropBlanks_append, dropBlanks_eq_self (by simp [isBlank])]
  have hparen : EndsIdentifier ('(' :: r) := endsIdentifier_cons.2 (by decide)
  have hends : head.EndsBefore u.rest := by
    rw [hu]
    exact head.endsBefore_of_apart (.blanks_append (fun _ => hparen.apart) hw) (by simp [hdrop])
  refine ⟨?_, ?_⟩
  · rw [skipBlanks_eq_self_of_head hs]
    exact readHead_of_spans hs hends
  · rw [Cursor.skipBlanks, hu, hdrop]

theorem Reads.of_listed {a : Awaiting} {s u t : Cursor} {head : FieldHead} {w inner : List Char}
    {gs fs : List FieldSpec} (hs : s.Spans (head.chars ++ w ++ '(' :: inner ++ [')']) u)
    (hw : Blanks w)
    (hi : ∀ {s t : Cursor}, s.Spans inner t → AtEnd t.rest → Reads .firstField s gs t)
    (h : Reads .separator u fs t) : Reads a s (head.field (some gs) :: fs) t := by
  obtain ⟨m, hm, hclose⟩ := Cursor.Spans.split hs
  obtain ⟨v, hv, hlist⟩ := Cursor.Spans.split hm
  obtain ⟨x, hx, hblank⟩ := Cursor.Spans.split hv
  obtain ⟨r, hr, hinner⟩ := Cursor.Spans.cons_iff.1 hlist
  obtain ⟨r', hr', hu⟩ := Cursor.Spans.cons_iff.1 hclose
  obtain rfl := Cursor.spans_nil_iff.1 hu
  obtain ⟨hread, hopen⟩ := readHead_of_opening hx hw (by rw [hblank.1, hr])
  have hxv : x.skipBlanks = v :=
    (hblank.skipBlanks_eq hw).trans (Cursor.skipBlanks_eq_self (by simp [hr, isBlank]))
  refine .listed hread hopen (hi ?_ ?_) hr' h
  · rw [hxv]
    exact hinner
  · simp [AtEnd, hr']

theorem AtEnd.not_opening {r : List Char} (h : AtEnd r) :
    ∀ c ∈ r.head?, isBlank c = false ∧ c ≠ '(' ∧ c ≠ ':' := by
  intro c hc
  obtain rfl := h c hc
  decide

theorem AtEnd.endsIdentifier {r : List Char} (h : AtEnd r) : EndsIdentifier r := by
  intro c hc
  obtain rfl := h c hc
  decide

theorem Reads.of_end {a : Awaiting} {s t : Cursor} {w : List Char} (hs : s.Spans w t)
    (hw : Blanks w) (ht : AtEnd t.rest) (ha : a ≠ .fieldAfterComma) : Reads a s [] t := by
  have : s.skipBlanks = t :=
    (hs.skipBlanks_eq hw).trans (Cursor.skipBlanks_eq_self fun c hc => (ht.not_opening c hc).1)
  rw [← this] at ht ⊢
  exact .stop ha ht

end Shape

theorem Separates.follows {cs ds s x : List Char} {fs : List FieldSpec} (h : Separates cs ds s)
    (hd : DerivesFields ds fs) : FollowsField cs (s ++ (ds ++ x)) := by
  obtain ⟨c, r, rfl, hc⟩ := hd.eq_cons
  cases h with
  | @comma w w' hw _ =>
    have hcomma : EndsIdentifier (',' :: (w' ++ (c :: r ++ x))) :=
      endsIdentifier_cons.2 (by decide)
    have hfollows : FollowsField cs (w ++ ',' :: (w' ++ (c :: r ++ x))) :=
      followsField_blanks_append hw (by simp [isBlank]) fun _ => hcomma.apart
    simpa only [List.append_assoc, List.cons_append] using hfollows
  | blanks hw hapart =>
    refine followsField_blanks_append hw ?_ hapart
    intro d hd
    obtain rfl : c = d := by simpa using hd
    refine ⟨isBlank_of_isFieldStart hc, ?_, ?_⟩
    · rintro rfl
      exact absurd hc (by decide)
    · rintro rfl
      exact absurd hc (by decide)

theorem Separates.reads {cs ds s : List Char} {u v t : Cursor} {fs : List FieldSpec}
    (h : Separates cs ds s) (hs : u.Spans s v)
    (hv : ∀ a, Reads a v fs t) : Reads .separator u fs t := by
  cases h with
  | @comma w w' hw hw' =>
    obtain ⟨x, hx, hcomma⟩ := Cursor.Spans.split hs
    obtain ⟨r, hr, hblank⟩ := Cursor.Spans.cons_iff.1 hcomma
    have hx' : x.skipBlanks = x := Cursor.skipBlanks_eq_self (by simp [hr, isBlank])
    refine Reads.blanks (.comma (by rw [hx', hr]) ?_) hw hx
    rw [hx']
    exact (hv _).blanks hw' hblank
  | blanks hw _ => exact (hv _).blanks hw hs

mutual

theorem DerivesField.reads {cs : List Char} {f : FieldSpec} :
    DerivesField cs f → ∀ {a : Awaiting} {s u t : Cursor} {fs : List FieldSpec},
      s.Spans cs u → FollowsField cs u.rest → Reads .separator u fs t → Reads a s (f :: fs) t
  | .bare _ => fun hs hfollow h => Reads.of_bare hs hfollow h
  | .listed _ hw hd => fun hs _ h => .of_listed hs hw hd.reads h

theorem DerivesFields.reads {cs : List Char} {fs : List FieldSpec} :
    DerivesFields cs fs → ∀ {a : Awaiting} {s u t : Cursor} {w : List Char},
      s.Spans cs u → u.Spans w t → Blanks w → AtEnd t.rest → Reads a s fs t
  | .one hd => fun hs hu hw ht => by
    have hrest := hu.1
    refine hd.reads hs ?_ (.of_end hu hw ht (by decide))
    rw [hrest]
    exact followsField_blanks_append hw ht.not_opening fun _ => ht.endsIdentifier.apart
  | .more hd hsep hd' => fun hs hu hw ht => by
    obtain ⟨v, hv, hds⟩ := Cursor.Spans.split hs
    obtain ⟨x, hx, hsv⟩ := Cursor.Spans.split hv
    refine hd.reads hx ?_ (hsep.reads hsv fun _ => hd'.reads hds hu hw ht)
    rw [hsv.1, hds.1]
    exact hsep.follows hd'

theorem DerivesList.reads {cs : List Char} {fs : List FieldSpec} :
    DerivesList cs fs → ∀ {s t : Cursor}, s.Spans cs t → AtEnd t.rest → Reads .firstField s fs t
  | .blank hw => fun hs ht => .of_end hs hw ht (by decide)
  | .fields hw hd hw' => fun hs ht => by
    obtain ⟨u, hu, hut⟩ := Cursor.Spans.split hs
    obtain ⟨v, hv, hvu⟩ := Cursor.Spans.split hu
    exact (hd.reads hvu hut hw' ht).blanks hw hv

end

/-! ## The parser -/

theorem Text.trimChars_eq_nil_of_blanks {cs : List Char} (h : Blanks (trimChars cs)) :
    trimChars cs = [] := by
  have hrev : Blanks (dropBlanks (dropBlanks cs).reverse) := by
    intro c hc
    exact h c (by rw [trimChars]; exact List.mem_reverse.2 hc)
  have hnil : dropBlanks (dropBlanks cs).reverse = [] := by
    rw [← hrev.dropBlanks_eq]
    exact (dropBlanks_eq_self (isBlank_head?_dropBlanks _)).symm
  rw [trimChars, hnil, List.reverse_nil]

/-- The texts that are read to their end are those that the grammar derives. -/
theorem Shape.reads_start_iff {cs : List Char} {fs : List FieldSpec} :
    (∃ t : Cursor, Reads .firstField (.start cs) fs t ∧ t.rest = []) ↔ DerivesList cs fs := by
  constructor
  · rintro ⟨t, h, ht⟩
    obtain ⟨ds, ⟨hs, -⟩, hd⟩ := h.derives
    obtain rfl : cs = ds := by simpa [Cursor.start, ht] using hs
    exact Awaiting.derives_firstField_iff.1 hd
  · intro h
    have hspan : (Cursor.start cs).Spans cs ⟨cs.length, []⟩ := by simp [Cursor.Spans, Cursor.start]
    exact ⟨_, h.reads hspan (by simp [AtEnd]), rfl⟩

theorem DerivesList.unique {cs : List Char} {fs gs : List FieldSpec} (h : DerivesList cs fs)
    (h' : DerivesList cs gs) : fs = gs := by
  obtain ⟨t, ht, -⟩ := reads_start_iff.2 h
  obtain ⟨u, hu, -⟩ := reads_start_iff.2 h'
  exact (ht.unique hu).1

theorem DerivesFields.derivesList {cs : List Char} {fs : List FieldSpec} (h : DerivesFields cs fs) :
    DerivesList cs fs := by
  simpa using DerivesList.fields blanks_nil h blanks_nil

theorem DerivesField.unique {cs : List Char} {f g : FieldSpec} (h : DerivesField cs f)
    (h' : DerivesField cs g) : f = g := by
  simpa using (DerivesFields.one h).derivesList.unique (DerivesFields.one h').derivesList

theorem derivesList_nil_iff {cs : List Char} : DerivesList cs [] ↔ Blanks cs := by
  constructor
  · intro h
    cases h with
    | blank hw => exact hw
    | fields _ h _ => nomatch h
  · exact .blank

namespace Shape

/-- A text is parsed when reading it from the start leaves nothing over. -/
theorem parse_eq_ok_iff_reads {text : String} {s : Shape} :
    parse text = .ok s ↔ trimChars text.toList ≠ [] ∧
      (∃ t : Cursor, Reads .firstField (.start (trimChars text.toList)) s.fields t ∧ t.rest = []) ∧
      s.isFlat = false ∧ s.isFlatLists = false := by
  unfold parse
  generalize trimChars text.toList = cs
  by_cases hcs : cs = []
  · simp [hcs]
  · have hempty : cs.isEmpty = false := by simpa using hcs
    simp only [hempty, Bool.false_eq_true, if_false]
    constructor
    · intro h
      split at h
      · simp at h
      · next p hp =>
        split at h
        · next hstop =>
          obtain rfl : (⟨p.fields, false, false⟩ : Shape) = s := by simpa using h
          exact ⟨hcs, ⟨p.stop, reads_of_readFields hp, hstop⟩, rfl, rfl⟩
        · simp at h
    · rintro ⟨-, ⟨t, ht, hstop⟩, hflat, hlists⟩
      obtain ⟨p, hp, hfields, rfl⟩ := ht.exists_readFields
      obtain ⟨fields, isFlat, isFlatLists⟩ := s
      simp only at hfields hflat hlists
      simp only [hp, hstop, hfields, hflat, hlists]

theorem parse_eq_ok_iff {text : String} {s : Shape} :
    parse text = .ok s ↔ DerivesList (trimChars text.toList) s.fields ∧ s.fields ≠ [] ∧
      s.isFlat = false ∧ s.isFlatLists = false := by
  rw [parse_eq_ok_iff_reads, reads_start_iff]
  constructor
  · rintro ⟨hne, hd, hflags⟩
    refine ⟨hd, ?_, hflags⟩
    intro hnil
    rw [hnil, derivesList_nil_iff] at hd
    exact hne (trimChars_eq_nil_of_blanks hd)
  · rintro ⟨hd, hne, hflags⟩
    refine ⟨?_, hd, hflags⟩
    intro hnil
    rw [hnil] at hd
    exact hne (hd.unique (.blank blanks_nil))

end Shape

/-- A list behind a field belongs to that field. -/
theorem DerivesFields.eq_listed {head : FieldHead} {w r : List Char} {fs : List FieldSpec}
    (h : DerivesFields (head.chars ++ w ++ '(' :: r) fs) (hw : Blanks w) :
    ∃ inner gs, fs = head.field (some inner) :: gs := by
  obtain ⟨t, ht, -⟩ := reads_start_iff.2 h.derivesList
  have hspan : (Cursor.start (head.chars ++ w ++ '(' :: r)).Spans head.chars
      ⟨head.chars.length, w ++ '(' :: r⟩ := by simp [Cursor.Spans, Cursor.start]
  obtain ⟨hread, hopen⟩ := readHead_of_opening hspan hw rfl
  cases ht with
  | stop _ hs =>
    obtain ⟨c, r', hr', hparen, -⟩ := exists_of_readHead hread
    exact absurd (hs c (by rw [hr']; rfl)) hparen
  | @bare _ _ u _ head' fs hs hu _ =>
    obtain ⟨rfl, rfl⟩ : head = head' ∧ ⟨_, _⟩ = u := by simpa using hread.symm.trans hs
    exact absurd hopen (hu r)
  | @listed _ _ u _ _ head' _ _ inner fs hs =>
    obtain ⟨rfl, -⟩ : head = head' ∧ ⟨_, _⟩ = u := by simpa using hread.symm.trans hs
    exact ⟨inner, fs, rfl⟩

theorem FieldHead.paren_notMem_chars (head : FieldHead) : '(' ∉ head.chars := by
  intro h
  cases head with
  | wildcard => simp [chars] at h
  | named name key =>
    have hpart : isIdentifierPart '(' = true := by
      cases key with
      | none => exact name.isIdentifierPart_of_mem h
      | some key =>
        rcases List.mem_append.1 h with h | h
        · exact name.isIdentifierPart_of_mem h
        · exact key.isIdentifierPart_of_mem (by simpa using h)
    exact absurd hpart (by decide)

theorem DerivesField.nested_eq_none_iff {cs : List Char} {f : FieldSpec} (h : DerivesField cs f) :
    f.nested = none ↔ '(' ∉ cs := by
  cases h with
  | bare head => simp [head.paren_notMem_chars]
  | listed head => simp

namespace Shape

/-- The parser accepts exactly the texts that the grammar derives once they are trimmed, with at
least one field and both flags off. -/
theorem parse_accepts_language :
    (∀ (text : String) (s : Shape), parse text = .ok s ↔
      DerivesList (trimChars text.toList) s.fields ∧ s.fields ≠ [] ∧
        s.isFlat = false ∧ s.isFlatLists = false) ∧
    (∀ (cs : List Char) (fs gs : List FieldSpec),
      DerivesList cs fs → DerivesList cs gs → fs = gs) ∧
    (∀ (head : FieldHead) (w r : List Char) (fs : List FieldSpec), Blanks w →
      DerivesFields (head.chars ++ w ++ '(' :: r) fs →
        ∃ inner gs, fs = head.field (some inner) :: gs) ∧
    (∀ (cs : List Char) (f : FieldSpec), DerivesField cs f → (f.nested = none ↔ '(' ∉ cs)) ∧
    (∀ cs : List Char, DerivesList cs [] ↔ Blanks cs) ∧
    (∀ (cs : List Char) (fs : List FieldSpec), DerivesList cs fs → ∀ f ∈ fs, f.Grammatical) := by
  refine ⟨?_, ?_, ?_, ?_, ?_, ?_⟩
  · intro text s
    exact parse_eq_ok_iff
  · intro cs fs gs h h'
    exact h.unique h'
  · intro head w r fs hw h
    exact h.eq_listed hw
  · intro cs f h
    exact h.nested_eq_none_iff
  · intro cs
    exact derivesList_nil_iff
  · intro cs fs h
    exact h.grammatical

end Shape
end RecordProjection
