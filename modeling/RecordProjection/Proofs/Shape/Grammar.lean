import RecordProjection.Shape.Parser

/-!
# The grammar of shapes

The language of shapes, stated over characters and apart from any way of reading it. Blanks may
stand around every field and before a list in parentheses, but not around the two colons of an
alias. Two fields may stand side by side without anything between them unless their seam would
fall inside an identifier. A list in parentheses may be empty.
-/
namespace RecordProjection

open Text

/-- A run of blanks. -/
def Text.Blanks (w : List Char) : Prop := ∀ c ∈ w, isBlank c = true

/-- The seam between two texts does not fall inside an identifier. -/
def Apart (left right : List Char) : Prop :=
  ∀ c ∈ left.getLast?, ∀ d ∈ right.head?, ¬(isIdentifierPart c = true ∧ isIdentifierPart d = true)

/-- The text of a field up to its list. -/
def FieldHead.chars : FieldHead → List Char
  | wildcard => ['*']
  | named name none => name.chars
  | named name (some key) => name.chars ++ ':' :: ':' :: key.chars

/-- What may stand between two fields: a comma with blanks around it, or blanks alone. -/
inductive Separates (left right : List Char) : List Char → Prop
  | comma {w w' : List Char} (hw : Blanks w) (hw' : Blanks w') :
      Separates left right (w ++ ',' :: w')
  | blanks {w : List Char} (hw : Blanks w) (apart : w = [] → Apart left right) :
      Separates left right w

mutual

/-- The text of one field. A list behind a field belongs to it. -/
inductive DerivesField : List Char → FieldSpec → Prop
  | bare (head : FieldHead) : DerivesField head.chars (head.field none)
  | listed (head : FieldHead) {w inner : List Char} {fs : List FieldSpec} (hw : Blanks w)
      (h : DerivesList inner fs) :
      DerivesField (head.chars ++ w ++ '(' :: inner ++ [')']) (head.field (some fs))

/-- The text of one or more fields with separators between them. -/
inductive DerivesFields : List Char → List FieldSpec → Prop
  | one {cs : List Char} {f : FieldSpec} (h : DerivesField cs f) : DerivesFields cs [f]
  | more {cs s ds : List Char} {f : FieldSpec} {fs : List FieldSpec} (h : DerivesField cs f)
      (hs : Separates cs ds s) (h' : DerivesFields ds fs) : DerivesFields (cs ++ s ++ ds) (f :: fs)

/-- The text of a list of fields, which may be empty. -/
inductive DerivesList : List Char → List FieldSpec → Prop
  | blank {w : List Char} (hw : Blanks w) : DerivesList w []
  | fields {w cs w' : List Char} {fs : List FieldSpec} (hw : Blanks w) (h : DerivesFields cs fs)
      (hw' : Blanks w') : DerivesList (w ++ cs ++ w') fs

end

/-- A tree of fields that shape syntax can express: every wildcard bears the name `*`, and all
other names and all aliases are identifiers. -/
inductive FieldSpec.Grammatical : FieldSpec → Prop
  | wildcard {nested : Option (List FieldSpec)} (h : ∀ fs ∈ nested, ∀ f ∈ fs, f.Grammatical) :
      Grammatical (.wildcard "*" nested)
  | named (name : Identifier) (key : Option Identifier) {nested : Option (List FieldSpec)}
      (h : ∀ fs ∈ nested, ∀ f ∈ fs, f.Grammatical) :
      Grammatical (.named name.text (key.map Identifier.text) nested name.text_ne_star)

/-! ## Runs of blanks -/

namespace Text

@[simp] theorem blanks_nil : Blanks [] := by
  intro c hc
  simp at hc

theorem blanks_takeWhile (cs : List Char) : Blanks (cs.takeWhile isBlank) :=
  fun _ hc => List.all_eq_true.1 List.all_takeWhile _ hc

theorem Blanks.append {v w : List Char} (hv : Blanks v) (hw : Blanks w) : Blanks (v ++ w) := by
  intro c hc
  rcases List.mem_append.1 hc with hc | hc
  · exact hv c hc
  · exact hw c hc

theorem Blanks.dropBlanks_append {w : List Char} (hw : Blanks w) (cs : List Char) :
    dropBlanks (w ++ cs) = dropBlanks cs := List.dropWhile_append_of_pos hw

theorem Blanks.dropBlanks_eq {w : List Char} (hw : Blanks w) : dropBlanks w = [] := by
  simpa [dropBlanks] using hw.dropBlanks_append []

theorem isBlank_head?_dropBlanks (cs : List Char) :
    ∀ c ∈ (dropBlanks cs).head?, isBlank c = false := by
  intro c hc
  cases h : dropBlanks cs with
  | nil => simp [h] at hc
  | cons d r =>
    rw [h] at hc
    obtain rfl : d = c := by simpa using hc
    exact isBlank_head_dropBlanks h

end Text

/-! ## Seams -/

theorem Apart.of_append {cs ds es : List Char} (h : Apart cs (ds ++ es)) : Apart cs ds := by
  intro c hc d hd
  exact h c hc d (by simp [List.head?_append, Option.mem_def.1 hd])

theorem Apart.of_last {cs ds : List Char} {c : Char} (h : isIdentifierPart c = false) :
    Apart (cs ++ [c]) ds := by
  intro d hd _ _ hparts
  obtain rfl : c = d := by simpa using hd
  rw [h] at hparts
  exact absurd hparts.1 (by decide)

/-! ## Heads of fields -/

/-- A character a field can begin with. -/
def isFieldStart (c : Char) : Bool := c = '*' || isIdentifierStart c

/-- A character a field can end with. -/
def isFieldEnd (c : Char) : Bool := c = '*' || c = ')' || isIdentifierPart c

theorem isIdentifierPart_of_isIdentifierStart {c : Char} (h : isIdentifierStart c = true) :
    isIdentifierPart c = true := by
  rw [isIdentifierPart, h, Bool.true_or]

theorem isBlank_of_isIdentifierPart {c : Char} (h : isIdentifierPart c = true) :
    isBlank c = false := by
  -- identifiers are ASCII, and lie between the blanks of the control range and U+0085
  have hrange : 48 ≤ c.toNat ∧ c.toNat ≤ 122 := by
    simp only [isIdentifierPart, isIdentifierStart, Bool.or_eq_true, Bool.and_eq_true,
      decide_eq_true_eq, Char.le_def, UInt32.le_iff_toNat_le, Char.toNat_val] at h
    rcases h with ((rfl | h) | h) | h
    · decide
    all_goals
      simp only [Char.reduceToNat] at h
      omega
  simp only [isBlank, Bool.or_eq_false_iff, Bool.and_eq_false_iff, decide_eq_false_iff_not,
    beq_eq_false_iff_ne]
  omega

theorem isBlank_of_isFieldStart {c : Char} (h : isFieldStart c = true) : isBlank c = false := by
  simp only [isFieldStart, Bool.or_eq_true, decide_eq_true_eq] at h
  rcases h with rfl | h
  · decide
  · exact isBlank_of_isIdentifierPart (isIdentifierPart_of_isIdentifierStart h)

theorem isBlank_of_isFieldEnd {c : Char} (h : isFieldEnd c = true) : isBlank c = false := by
  simp only [isFieldEnd, Bool.or_eq_true, decide_eq_true_eq] at h
  rcases h with (rfl | rfl) | h
  · decide
  · decide
  · exact isBlank_of_isIdentifierPart h

theorem Identifier.chars_ne_nil (i : Identifier) : i.chars ≠ [] := List.cons_ne_nil _ _

theorem Identifier.isIdentifierPart_of_mem {i : Identifier} {c : Char} (h : c ∈ i.chars) :
    isIdentifierPart c = true := by
  rcases List.mem_cons.1 h with rfl | h
  · exact isIdentifierPart_of_isIdentifierStart i.isIdentifierStart_first
  · exact i.isIdentifierPart_others c h

namespace FieldHead

@[simp] theorem nested_field (head : FieldHead) (nested : Option (List FieldSpec)) :
    (head.field nested).nested = nested := by
  cases head <;> rfl

theorem grammatical_field (head : FieldHead) {nested : Option (List FieldSpec)}
    (h : ∀ fs ∈ nested, ∀ f ∈ fs, f.Grammatical) : (head.field nested).Grammatical := by
  cases head with
  | wildcard => exact .wildcard h
  | named name key => exact .named name key h

theorem chars_eq_cons (head : FieldHead) :
    ∃ c r, head.chars = c :: r ∧ isFieldStart c = true := by
  cases head with
  | wildcard => exact ⟨'*', [], rfl, rfl⟩
  | named name key =>
    have hc : isFieldStart name.first = true := by
      rw [isFieldStart, name.isIdentifierStart_first, Bool.or_true]
    cases key with
    | none => exact ⟨name.first, name.others, rfl, hc⟩
    | some key => exact ⟨name.first, name.others ++ ':' :: ':' :: key.chars, rfl, hc⟩

theorem chars_ne_nil (head : FieldHead) : head.chars ≠ [] := by
  obtain ⟨c, r, hr, -⟩ := head.chars_eq_cons
  rw [hr]
  exact List.cons_ne_nil c r

end FieldHead

/-! ## Derivations -/

theorem DerivesField.eq_cons {cs : List Char} {f : FieldSpec} (h : DerivesField cs f) :
    ∃ c r, cs = c :: r ∧ isFieldStart c = true := by
  cases h with
  | bare head => exact head.chars_eq_cons
  | @listed head w inner _ =>
    obtain ⟨c, r, hr, hc⟩ := head.chars_eq_cons
    exact ⟨c, r ++ w ++ '(' :: inner ++ [')'], by rw [hr]; rfl, hc⟩

theorem DerivesFields.eq_cons {cs : List Char} {fs : List FieldSpec} (h : DerivesFields cs fs) :
    ∃ c r, cs = c :: r ∧ isFieldStart c = true := by
  cases h with
  | one h => exact h.eq_cons
  | @more _ s ds _ _ h =>
    obtain ⟨c, r, rfl, hc⟩ := h.eq_cons
    exact ⟨c, r ++ s ++ ds, rfl, hc⟩

mutual

theorem DerivesField.grammatical {cs : List Char} {f : FieldSpec} :
    DerivesField cs f → f.Grammatical
  | .bare head => head.grammatical_field (by simp)
  | .listed head _ h => head.grammatical_field (by simpa using h.grammatical)

theorem DerivesFields.grammatical {cs : List Char} {fs : List FieldSpec} :
    DerivesFields cs fs → ∀ f ∈ fs, f.Grammatical
  | .one h => by simpa using h.grammatical
  | .more h _ h' => by simpa using ⟨h.grammatical, h'.grammatical⟩

/-- A derived tree can be expressed in shape syntax. -/
theorem DerivesList.grammatical {cs : List Char} {fs : List FieldSpec} :
    DerivesList cs fs → ∀ f ∈ fs, f.Grammatical
  | .blank _ => by simp
  | .fields _ h _ => h.grammatical

end

end RecordProjection
