import RecordProjection.Descriptor.Resolution
import RecordProjection.Proofs.Entries
import RecordProjection.Proofs.Results

/-!
# The levels of a descriptor

Induction over the descriptors inside a descriptor, what merging the fields of a level does to their
keys, and what a request comes to at one of the fields that it stands for.

## Main definitions

* `Descriptor.Everywhere` : something holds at every level of a descriptor.
* `Descriptor.DistinctKeys` : no key is used twice at any level.
-/
namespace RecordProjection

namespace Descriptor

mutual

/-- What holds of a descriptor when it holds of the descriptors of its fields holds of all. -/
theorem induction {P : Descriptor → Prop}
    (step : ∀ d : Descriptor, (∀ f ∈ d.fields, ∀ n, f.nested = some n → P n) → P d) : ∀ d, P d
  | ⟨_, fields, _, _⟩ => step _ (induction_fields step fields)

theorem induction_fields {P : Descriptor → Prop}
    (step : ∀ d : Descriptor, (∀ f ∈ d.fields, ∀ n, f.nested = some n → P n) → P d) :
    ∀ fields : List ResolvedField, ∀ f ∈ fields, ∀ n, f.nested = some n → P n
  | [] => by simp
  | ⟨_, _, _, none⟩ :: fields => by
    intro g hg n hn
    rcases List.mem_cons.1 hg with rfl | hg
    · simp at hn
    · exact induction_fields step fields g hg n hn
  | ⟨_, _, _, some d⟩ :: fields => by
    intro g hg n hn
    rcases List.mem_cons.1 hg with rfl | hg
    · obtain rfl : d = n := Option.some.inj hn
      exact induction step d
    · exact induction_fields step fields g hg n hn

end

/-- Something holds of a descriptor and of all descriptors inside it. -/
inductive Everywhere (P : Descriptor → Prop) : Descriptor → Prop
  | intro {d : Descriptor} (here : P d)
      (inside : ∀ f ∈ d.fields, ∀ n, f.nested = some n → Everywhere P n) : Everywhere P d

theorem Everywhere.here {P : Descriptor → Prop} {d : Descriptor} (h : d.Everywhere P) : P d := by
  cases h with
  | intro here _ => exact here

theorem Everywhere.inside {P : Descriptor → Prop} {d : Descriptor} (h : d.Everywhere P) :
    ∀ f ∈ d.fields, ∀ n, f.nested = some n → n.Everywhere P := by
  cases h with
  | intro _ inside => exact inside

/-- No key is used twice at any level. -/
def DistinctKeys (d : Descriptor) : Prop := d.Everywhere fun d => d.keys.Nodup

end Descriptor

/-! ## Merging -/

theorem mem_of_mem_mergeByKey {fields : List ResolvedField} {f : ResolvedField}
    (h : f ∈ mergeByKey fields) : f ∈ fields := by
  obtain ⟨p, hp, rfl⟩ := List.mem_map.1 h
  obtain ⟨g, hg, rfl⟩ := List.mem_map.1 (Entries.mem_of_mem_ofList hp)
  exact hg

/-- Merged fields stand under their own keys. -/
theorem ofList_keyed (fields : List ResolvedField) :
    Entries.ofList (fields.map fun f => (f.key, f)) =
      (mergeByKey fields).map fun f => (f.key, f) := by
  rw [mergeByKey, List.map_map]
  refine (List.map_id _).symm.trans (List.map_congr_left fun p hp => ?_)
  obtain ⟨f, -, rfl⟩ := List.mem_map.1 (Entries.mem_of_mem_ofList hp)
  rfl

theorem keys_keyed (fields : List ResolvedField) :
    Entries.keys (fields.map fun f => (f.key, f)) = fields.map ResolvedField.key := by
  rw [Entries.keys, List.map_map]
  rfl

theorem nodup_keys_mergeByKey (fields : List ResolvedField) :
    ((mergeByKey fields).map ResolvedField.key).Nodup := by
  rw [← keys_keyed, ← ofList_keyed]
  exact Entries.nodup_keys_ofList _

namespace Registry

/-! ## Resolved requests -/

/-- A request is resolved at each of the fields it stands for, with the list behind it. -/
theorem resolveSpec_eq (r : Registry) (maxDepth : Nat) (path : List String) (model : Model)
    (spec : FieldSpec) : r.resolveSpec maxDepth path model spec = (do
      let sources ← r.sources model spec
      sources.mapM (r.resolveAt maxDepth path model spec fun path m =>
        r.resolveInner maxDepth path m spec.nested)) := by
  cases spec <;> rfl

/-- A request asks for nothing inside values, or has a list that is not empty. -/
theorem plain_or_list (spec : FieldSpec) :
    (∀ specs ∈ spec.nested, specs = []) ∨ ∃ specs, spec.nested = some specs ∧ specs ≠ [] := by
  by_cases h : ∀ specs ∈ spec.nested, specs = []
  · exact .inl h
  · exact .inr (by simpa using h)

section At
variable {r : Registry} {maxDepth : Nat} {path : List String} {model : Model} {spec : FieldSpec}
  {inner : List String → Model → Except SchemaError (List ResolvedField)} {source : FieldSchema}

/-- A request without a list, or with an empty one, asks for nothing inside the value. -/
theorem resolveAt_of_no_list (h : ∀ specs ∈ spec.nested, specs = []) :
    r.resolveAt maxDepth path model spec inner source = .ok (leaf spec source) := by
  rw [resolveAt.eq_def]
  split
  · rfl
  · rfl
  · next specs hne hspecs => exact absurd (h specs hspecs) hne

/-- A list that is not empty is resolved on the record type that lies below the field. -/
theorem resolveAt_of_list {specs : List FieldSpec} (hspecs : spec.nested = some specs)
    (hne : specs ≠ []) : r.resolveAt maxDepth path model spec inner source = (do
      let next ← descend maxDepth path model.name source
      let fields ← r.innerFields next.1 specs (inner next.2)
      .ok { leaf spec source with nested := some ⟨next.1, fields, false, false⟩ }) := by
  rw [resolveAt.eq_def]
  split
  · next hnone => simp [hnone] at hspecs
  · next hnil => exact absurd (Option.some.inj (hspecs.symm.trans hnil)) hne
  · next specs' _ hspecs' =>
    obtain rfl : specs = specs' := Option.some.inj (hspecs.symm.trans hspecs')
    rfl

theorem resolveAt_eq_ok_iff {specs : List FieldSpec} (hspecs : spec.nested = some specs)
    (hne : specs ≠ []) {f : ResolvedField} :
    r.resolveAt maxDepth path model spec inner source = .ok f ↔
      ∃ next fields, descend maxDepth path model.name source = .ok next ∧
        r.innerFields next.1 specs (inner next.2) = .ok fields ∧
        f = { leaf spec source with nested := some ⟨next.1, fields, false, false⟩ } := by
  rw [resolveAt_of_list hspecs hne, exceptBind_eq_ok_iff]
  simp only [exceptBind_eq_ok_iff, Except.ok.injEq, eq_comm (a := f), exists_and_left]

end At

end Registry
end RecordProjection
