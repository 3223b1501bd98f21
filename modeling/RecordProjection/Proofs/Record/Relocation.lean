import RecordProjection.Proofs.Descriptor.Levels
import RecordProjection.Proofs.Record.Walk

/-!
# Walks from elsewhere

A walk knows where it began for no other reason than to say where it stopped: begun elsewhere it
gives the same record, or an error that is the same but for the front of its place.

## Main definitions

* `Location.under`, `Obstacle.under`, `ProjectionError.under` : a place, and an error with its
  place, seen from where the walk itself stands.
* `ProjectionError.Alike` : two errors are the same but for the front of their places.
-/
namespace RecordProjection

/-! ## Places -/

namespace Location

/-- The steps of a place in words, one behind the other. -/
def trail : List Step → String
  | [] => ""
  | step :: steps => stepText step ++ trail steps

/-- A place, for a walk that began at another one. -/
def under (m l : Location) : Location := ⟨l.origin, l.steps ++ m.steps⟩

@[simp] theorem under_start (origin : String) (l : Location) : (start origin).under l = l := by
  simp [under, start]

@[simp] theorem under_member (m l : Location) (key : String) :
    (m.under l).member key = (m.member key).under l := by
  simp [under, member]

@[simp] theorem under_item (m l : Location) (index : Nat) :
    (m.under l).item index = (m.item index).under l := by
  simp [under, item]

@[simp] theorem text_start (origin : String) : (start origin).text = origin := rfl

theorem foldl_stepText (steps : List Step) (s : String) :
    steps.foldl (fun s step => s ++ stepText step) s = s ++ trail steps := by
  induction steps generalizing s with
  | nil => simp [trail]
  | cons step steps ih => rw [List.foldl_cons, ih, trail, String.append_assoc]

theorem text_under (m l : Location) : (m.under l).text = l.text ++ trail m.steps := by
  rw [text, text, under, List.foldl_append, foldl_stepText m.steps]

end Location

/-! ## Errors -/

/-- An obstacle, for a walk that began at a place. -/
def Obstacle.under (l : Location) : Obstacle → Obstacle
  | record model m v => .record model (m.under l) v
  | member model field target m v => .member model field target (m.under l) v

/-- An error, for a walk that began at a place. -/
def ProjectionError.under (l : Location) : ProjectionError → ProjectionError
  | obstacle o => .obstacle (o.under l)
  | coercion e => .coercion e
  | emptyJoiner => .emptyJoiner

/-- Two errors are the same but for the front of the places where they stand, which their messages
name as well. -/
inductive ProjectionError.Alike (here there : String) : ProjectionError → ProjectionError → Prop
  | obstacle {o o' : Obstacle} (model : o.model = o'.model) (field? : o.field? = o'.field?)
      (expected : o.expected = o'.expected) (value : o.value = o'.value)
      (location : ∃ rest, o.location.text = here ++ rest ∧ o'.location.text = there ++ rest)
      (message : ∃ before after, o.message = before ++ o.location.text ++ after ∧
        o'.message = before ++ o'.location.text ++ after) :
      ProjectionError.Alike here there (.obstacle o) (.obstacle o')
  | coercion (e : CoercionError) :
      ProjectionError.Alike here there (.coercion e) (.coercion e)
  | emptyJoiner : ProjectionError.Alike here there .emptyJoiner .emptyJoiner

theorem Obstacle.message_under (o : Obstacle) : ∃ before after, ∀ l,
    (o.under l).message = before ++ (o.under l).location.text ++ after := by
  cases o with
  | record model m v =>
    refine ⟨"Expected object for model '" ++ model ++ "' at ", ", got " ++ v.kindName, ?_⟩
    intro l
    exact String.append_assoc
  | member model field target m v =>
    refine ⟨"Expected object for nested field '" ++ field ++ "' at ", ", got " ++ v.kindName, ?_⟩
    intro l
    exact String.append_assoc

theorem Obstacle.location_under (o : Obstacle) (l : Location) :
    (o.under l).location = o.location.under l := by
  cases o <;> rfl

/-- An error of walks that began at two places. -/
theorem ProjectionError.alike_under (e : ProjectionError) (l l' : Location) :
    Alike l.text l'.text (e.under l) (e.under l') := by
  cases e with
  | obstacle o =>
    refine .obstacle ?_ ?_ ?_ ?_ ?_ ?_
    · cases o <;> rfl
    · cases o <;> rfl
    · cases o <;> rfl
    · cases o <;> rfl
    · refine ⟨Location.trail o.location.steps, ?_, ?_⟩
      · rw [Obstacle.location_under, Location.text_under]
      · rw [Obstacle.location_under, Location.text_under]
    · obtain ⟨before, after, hmessage⟩ := o.message_under
      exact ⟨before, after, hmessage l, hmessage l'⟩
  | coercion e => exact .coercion e
  | emptyJoiner => exact .emptyJoiner

/-! ## The walk -/

section Values
variable {l : Location}

theorem readScalar_under (type : String) (v : Value) :
    (readScalar type v).mapError (·.under l) = readScalar type v := by
  rw [readScalar]
  cases v.coerce type <;> rfl

theorem readPlain_under (source : FieldSchema) (v : Value) :
    (readPlain source v).mapError (·.under l) = readPlain source v := by
  cases hl : source.isList with
  | false =>
    rw [readPlain_single hl]
    exact readScalar_under source.type v
  | true =>
    rcases v.list_or_not with ⟨items, rfl⟩ | hv
    · rw [readPlain_list hl, exceptMapError_map, exceptMapError_mapM]
      simp only [readScalar_under]
    · rw [readPlain_of_not_list hl hv]
      rfl

theorem readNested_under {model target : String} {source : FieldSchema}
    {inner : Value → Location → Except ProjectionError Value}
    (hinner : ∀ v m, inner v (m.under l) = (inner v m).mapError (·.under l)) (v : Value)
    (m : Location) : readNested model target source inner v (m.under l) =
      (readNested model target source inner v m).mapError (·.under l) := by
  cases hl : source.isList with
  | true =>
    rcases v.list_or_not with ⟨items, rfl⟩ | hv
    · rw [readNested_list hl, readNested_list hl, exceptMapError_map, exceptMapError_mapM]
      simp only [Location.under_item, hinner]
    · rw [readNested_of_not_list hl hv, readNested_of_not_list hl hv]
      rfl
  | false =>
    rcases v.mapping_or_not with ⟨members, rfl⟩ | hv
    · rw [readNested_mapping hl, readNested_mapping hl, hinner]
    · by_cases hnull : v = .null
      · rw [hnull, readNested_null hl, readNested_null hl]
        rfl
      · rw [readNested_of_not_mapping hl hnull hv, readNested_of_not_mapping hl hnull hv]
        rfl

end Values

namespace ResolvedField

theorem project_under {f : ResolvedField} {l : Location}
    (hinner : ∀ n, f.nested = some n →
      ∀ v m, n.project v (m.under l) = (n.project v m).mapError (·.under l))
    (model : String) (v : Value) (m : Location) :
    f.project model v (m.under l) = (f.project model v m).mapError (·.under l) := by
  cases hnested : f.nested with
  | none =>
    rw [project_of_nested_none hnested, project_of_nested_none hnested]
    exact (readPlain_under f.source v).symm
  | some n =>
    rw [project_of_nested_some hnested, project_of_nested_some hnested]
    exact readNested_under (hinner n hnested) v m

theorem rows_under {model : String} {members : Members} {l : Location} {fs : List ResolvedField}
    (hfields : ∀ f ∈ fs, ∀ v m,
      f.project model v (m.under l) = (f.project model v m).mapError (·.under l)) (m : Location) :
    rows model members (m.under l) fs = (rows model members m fs).mapError (·.under l) := by
  induction fs with
  | nil => rfl
  | cons f fs ih =>
    obtain ⟨hhere, hthere⟩ := List.forall_mem_cons.1 hfields
    cases hv : Entries.get? f.source.name members with
    | none => rw [rows_cons_of_absent hv, rows_cons_of_absent hv, ih hthere]
    | some v =>
      rw [rows_cons_of_present hv, rows_cons_of_present hv, Location.under_member, hhere,
        ih hthere]
      simp only [exceptMapError_bind]
      rfl

end ResolvedField

namespace Descriptor

/-- A walk begun elsewhere gives the same record, or the same error seen from there. -/
theorem project_under (d : Descriptor) (l : Location) : ∀ v m,
    d.project v (m.under l) = (d.project v m).mapError (·.under l) := by
  induction d using Descriptor.induction with
  | step d ih =>
    intro v m
    rcases v.mapping_or_not with ⟨members, rfl⟩ | hv
    · rw [project_mapping, project_mapping, exceptMapError_map]
      rw [ResolvedField.rows_under fun f hf => ResolvedField.project_under (ih f hf) d.model]
    · rw [project_of_not_mapping d hv, project_of_not_mapping d hv]
      rfl

/-- A walk from a place, as one from the start seen from there. -/
theorem project_eq_mapError (d : Descriptor) (v : Value) (l : Location) (origin : String) :
    d.project v l = (d.project v (.start origin)).mapError (·.under l) := by
  rw [← d.project_under, Location.under_start]

/-- Where a payload comes from matters only to the place of an error. -/
theorem record_eq_mapError (d : Descriptor) (joiner : Option Joiner) (raw : Value)
    (origin : String) : d.record joiner raw origin =
      (d.record joiner raw "").mapError (·.under (.start origin)) := by
  rw [record, record]
  cases h : d.unflattened joiner raw with
  | ok v => exact d.project_eq_mapError v (.start origin) ""
  | error err =>
    obtain rfl := eq_emptyJoiner_of_unflattened h
    rfl

/-- A payload that has a record has it wherever it comes from. -/
theorem record_eq_ok_iff_of_origin {d : Descriptor} {joiner : Option Joiner} {raw out : Value}
    (origin origin' : String) :
    d.record joiner raw origin = .ok out ↔ d.record joiner raw origin' = .ok out := by
  rw [record_eq_mapError, exceptMapError_eq_ok_iff, d.record_eq_mapError joiner raw origin',
    exceptMapError_eq_ok_iff]

/-- A payload that has none has the same error, but for the front of its place. -/
theorem exists_record_eq_error {d : Descriptor} {joiner : Option Joiner} {raw : Value}
    {origin : String} {err : ProjectionError} (h : d.record joiner raw origin = .error err)
    (origin' : String) : ∃ err', d.record joiner raw origin' = .error err' ∧
      ProjectionError.Alike origin origin' err err' := by
  rw [record_eq_mapError, exceptMapError_eq_error_iff] at h
  obtain ⟨bare, hbare, rfl⟩ := h
  refine ⟨bare.under (.start origin'), ?_, bare.alike_under (.start origin) (.start origin')⟩
  rw [record_eq_mapError, hbare]
  rfl

end Descriptor
end RecordProjection
