import Mathlib.Data.List.Basic
import RecordProjection.Proofs.Shape.Language

/-!
# Writing and parsing shapes

Shape syntax writes every grammatical tree so that parsing gives it back. The written form of a
field is one of the texts that the grammar derives for it, so this is a matter of the language
alone.
-/
namespace RecordProjection

open Text

/-- A shape that shape syntax can express: some fields, all of them grammatical, and no flags. -/
structure Shape.Grammatical (s : Shape) : Prop where
  fields_ne_nil : s.fields ≠ []
  grammatical : ∀ f ∈ s.fields, f.Grammatical
  isFlat_eq : s.isFlat = false
  isFlatLists_eq : s.isFlatLists = false

namespace FieldSpec

theorem chars_field_none (head : FieldHead) : (head.field none).chars = head.chars := by
  cases head with
  | wildcard => rfl
  | named name key =>
    cases key <;> simp [FieldHead.field, chars, FieldHead.chars, Identifier.text, aliasText]

theorem chars_field_some (head : FieldHead) (fs : List FieldSpec) :
    (head.field (some fs)).chars = head.chars ++ '(' :: listChars fs ++ [')'] := by
  cases head with
  | wildcard => rfl
  | named name key =>
    cases key <;> simp [FieldHead.field, chars, FieldHead.chars, Identifier.text, aliasText]

/-- The fields of a list are written with commas between them. -/
theorem derivesFields_listChars {fs : List FieldSpec} (hne : fs ≠ [])
    (h : ∀ f ∈ fs, DerivesField f.chars f) : DerivesFields (listChars fs) fs := by
  induction fs with
  | nil => exact absurd rfl hne
  | cons f fs ih =>
    cases fs with
    | nil => exact .one (h f (by simp))
    | cons g gs =>
      have hcomma : Separates f.chars (listChars (g :: gs)) [','] :=
        .comma blanks_nil blanks_nil
      have hrest := ih (by simp) fun x hx => h x (by simp [hx])
      have := DerivesFields.more (h f (by simp)) hcomma hrest
      simpa [listChars] using this

theorem derivesList_listChars {fs : List FieldSpec} (h : ∀ f ∈ fs, DerivesField f.chars f) :
    DerivesList (listChars fs) fs := by
  by_cases hne : fs = []
  · subst hne
    exact .blank blanks_nil
  · exact (derivesFields_listChars hne h).derivesList

theorem derivesField_chars_field (head : FieldHead) {nested : Option (List FieldSpec)}
    (h : ∀ fs ∈ nested, ∀ f ∈ fs, DerivesField f.chars f) :
    DerivesField (head.field nested).chars (head.field nested) := by
  cases nested with
  | none =>
    rw [chars_field_none]
    exact .bare head
  | some fs =>
    rw [chars_field_some]
    have := DerivesField.listed head blanks_nil (derivesList_listChars (h fs rfl))
    simpa using this

/-- The written form of a grammatical field is a text of that field. -/
theorem Grammatical.derivesField {f : FieldSpec} (h : f.Grammatical) : DerivesField f.chars f := by
  induction h with
  | wildcard _ ih => exact derivesField_chars_field .wildcard ih
  | named name key _ ih => exact derivesField_chars_field (.named name key) ih

end FieldSpec

/-! ## The ends of a written shape -/

theorem Identifier.isFieldEnd_getLast?_append (cs : List Char) (i : Identifier) :
    ∀ c ∈ (cs ++ i.chars).getLast?, isFieldEnd c = true := by
  intro c hc
  have hmem : c ∈ i.chars := by
    rw [List.getLast?_append_of_ne_nil _ i.chars_ne_nil] at hc
    exact List.mem_of_getLast? hc
  rw [isFieldEnd, i.isIdentifierPart_of_mem hmem, Bool.or_true]

theorem FieldHead.isFieldEnd_getLast? (head : FieldHead) :
    ∀ c ∈ head.chars.getLast?, isFieldEnd c = true := by
  cases head with
  | wildcard => simp [chars, isFieldEnd]
  | named name key =>
    cases key with
    | none => exact name.isFieldEnd_getLast?_append []
    | some key =>
      have := key.isFieldEnd_getLast?_append (name.chars ++ [':', ':'])
      simpa [chars] using this

theorem DerivesField.isFieldEnd_getLast? {cs : List Char} {f : FieldSpec}
    (h : DerivesField cs f) : ∀ c ∈ cs.getLast?, isFieldEnd c = true := by
  cases h with
  | bare head => exact head.isFieldEnd_getLast?
  | listed =>
    intro c hc
    rw [List.getLast?_concat] at hc
    obtain rfl : ')' = c := by simpa using hc
    decide

theorem DerivesFields.isFieldEnd_getLast? {cs : List Char} {fs : List FieldSpec}
    (h : DerivesFields cs fs) : ∀ c ∈ cs.getLast?, isFieldEnd c = true := by
  cases h with
  | one hfield => exact hfield.isFieldEnd_getLast?
  | more _ _ hrest =>
    have hlast := hrest.isFieldEnd_getLast?
    obtain ⟨c, r, rfl, -⟩ := hrest.eq_cons
    rwa [List.getLast?_append_of_ne_nil _ (List.cons_ne_nil c r)]

/-- A text of one or more fields has nothing to trim. -/
theorem DerivesFields.trimChars_eq {cs : List Char} {fs : List FieldSpec}
    (h : DerivesFields cs fs) : trimChars cs = cs := by
  refine trimChars_eq_self ?_ fun c hc => isBlank_of_isFieldEnd (h.isFieldEnd_getLast? c hc)
  obtain ⟨c, r, rfl, hc⟩ := h.eq_cons
  intro d hd
  obtain rfl : c = d := by simpa using hd
  exact isBlank_of_isFieldStart hc

namespace Shape

/-- A grammatical shape is what its written form stands for. -/
theorem parse_text_of_grammatical {s : Shape} (h : s.Grammatical) : parse s.text = .ok s := by
  have hfields : DerivesFields (FieldSpec.listChars s.fields) s.fields :=
    FieldSpec.derivesFields_listChars h.fields_ne_nil fun f hf => (h.grammatical f hf).derivesField
  rw [parse_eq_ok_iff, text, String.toList_ofList, hfields.trimChars_eq]
  exact ⟨hfields.derivesList, h.fields_ne_nil, h.isFlat_eq, h.isFlatLists_eq⟩

theorem grammatical_of_parse {text : String} {s : Shape} (h : parse text = .ok s) :
    s.Grammatical := by
  obtain ⟨hd, hne, hflat, hlists⟩ := parse_eq_ok_iff.1 h
  exact ⟨hne, hd.grammatical, hflat, hlists⟩

/-- Writing and parsing are inverse to each other on grammatical shapes, which are the shapes that
parsing gives; no two of them are written in the same way. -/
theorem parse_text_round_trip :
    (∀ s : Shape, s.Grammatical → parse s.text = .ok s) ∧
    (∀ (text : String) (s : Shape), parse text = .ok s → s.Grammatical ∧ parse s.text = .ok s) ∧
    (∀ s s' : Shape, s.Grammatical → s'.Grammatical → s.text = s'.text → s = s') := by
  refine ⟨?_, ?_, ?_⟩
  · intro s hs
    exact parse_text_of_grammatical hs
  · intro text s h
    have hs := grammatical_of_parse h
    exact ⟨hs, parse_text_of_grammatical hs⟩
  · intro s s' hs hs' htext
    have hparse := parse_text_of_grammatical hs
    rw [htext, parse_text_of_grammatical hs'] at hparse
    exact (Except.ok.inj hparse).symm

end Shape
end RecordProjection
