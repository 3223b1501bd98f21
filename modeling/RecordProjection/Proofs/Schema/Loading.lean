import RecordProjection.Engine.Failure
import RecordProjection.Proofs.Json.Contents
import RecordProjection.Proofs.Json.Rearranged
import RecordProjection.Proofs.Schema.Declarations
import RecordProjection.Schema.Builtin

/-!
# Where registries come from

A registry is the built-in one, or it is loaded from a catalog, whose mappings have each key once
like all mappings. Loading gives a record type and a field the names that they have as keys of the
catalog. So no record type bears the name of a primitive type, and no record type has two fields of
the same name.

## Main definitions

* `Registry.Loaded` : the registries that there are.
* `Registry.Regular` : record types with names of their own and fields with distinct names.
-/
namespace RecordProjection

/-- A JSON text stands for a value with distinct keys. -/
theorem Json.distinctKeys_of_read {cs : List Char} {v : Value} (h : read cs = .ok v) :
    v.DistinctKeys := by
  refine Inherited.of_read ⟨?_, fun _ => .list, fun _ => .mapping⟩ h
  intro v hv
  have hjson := Value.isJsonScalar_of_isReadScalar hv
  refine .scalar ?_ ?_
  · rintro items rfl
    simp [Value.isJsonScalar] at hjson
  · rintro members rfl
    simp [Value.isJsonScalar] at hjson

theorem Json.distinctKeys_of_readOctets {bytes : List UInt8} {v : Value}
    (h : readOctets bytes = .ok v) : v.DistinctKeys := by
  rw [readOctets] at h
  split at h
  · exact distinctKeys_of_read h
  · simp at h

namespace Registry

/-- The registries that there are: the built-in one, and those that are loaded from a catalog, as a
value or in the octets of a JSON text. -/
inductive Loaded : Registry → Prop
  | builtin : Loaded Registry.builtin
  | catalog {catalog : Members} {r : Registry} (distinct : (Value.mapping catalog).DistinctKeys)
      (h : ofCatalog catalog = .ok r) : Loaded r
  | octets {bytes : List UInt8} {r : Registry} (h : ofOctets bytes = .ok r) : Loaded r

/-- No record type bears the name of a primitive type, and none has two fields of the same name. -/
structure Regular (r : Registry) : Prop where
  notPrimitive : ∀ m ∈ r.models, m.name ∉ primitiveTypes
  distinct : ∀ m ∈ r.models, (m.fields.map FieldSchema.name).Nodup

/-! ## Loading -/

theorem models_of_ofModels {models : List Model} {r : Registry} (h : ofModels models = .ok r) :
    r.models = models := by
  rw [ofModels] at h
  split at h
  · simp at h
  · obtain rfl := Except.ok.inj h
    rfl

theorem regular_of_ofCatalog {catalog : Members} {r : Registry}
    (hcatalog : (Value.mapping catalog).DistinctKeys) (h : ofCatalog catalog = .ok r) :
    r.Regular := by
  obtain ⟨models, hmodels, h⟩ := exceptBind_eq_ok_iff.1 h
  have hentry (m : Model) (hm : m ∈ r.models) : ∃ entry ∈ catalog, m.DeclaredBy entry := by
    rw [models_of_ofModels h] at hm
    exact exists_of_mem_forall₂ (loadModels_eq_ok_iff.1 hmodels) hm
  constructor
  · intro m hm
    obtain ⟨entry, -, hdeclared⟩ := hentry m hm
    exact hdeclared.name ▸ hdeclared.notPrimitive
  · intro m hm
    obtain ⟨entry, hmem, hdeclared⟩ := hentry m hm
    obtain ⟨table, htable, hfields⟩ := hdeclared.table
    rw [FieldSchema.names_eq_keys hfields]
    exact (htable ▸ hcatalog.member entry hmem).keys

/-- Every registry is regular. -/
theorem Loaded.regular {r : Registry} (h : r.Loaded) : r.Regular := by
  cases h with
  | builtin => exact ⟨by decide +kernel, by decide +kernel⟩
  | catalog distinct h => exact regular_of_ofCatalog distinct h
  | @octets bytes r h =>
    rw [ofOctets.eq_def] at h
    split at h
    · next catalog hread =>
      exact regular_of_ofCatalog (Json.distinctKeys_of_readOctets hread)
        (exceptMapError_eq_ok_iff.1 h)
    · simp at h
    · simp at h
    · simp at h

end Registry
end RecordProjection
