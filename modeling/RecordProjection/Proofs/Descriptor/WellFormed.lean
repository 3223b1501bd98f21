import RecordProjection.Proofs.Descriptor.Building
import RecordProjection.Proofs.Engine.Transparency
import RecordProjection.Proofs.Schema.Loading

/-!
# Descriptors are well formed

A walk along a descriptor relies on it without looking at the schemas again. What it relies on holds
at every level of each descriptor that an engine gives, from memory or not: the record type is
there, no key is used twice, every field is the registry's own, and the descriptor of a value
belongs to the record type that the field refers to.

## Main definitions

* `Descriptor.levels` : the number of levels of a descriptor.
* `ResolvedField.Sound`, `Descriptor.Sound` : what holds of a field of a level, and of a level.
-/
namespace RecordProjection

mutual

/-- The number of levels of a descriptor. -/
def Descriptor.levels : Descriptor → Nat
  | ⟨_, fields, _, _⟩ => ResolvedField.levelsBelow fields + 1

/-- The number of levels below fields. -/
def ResolvedField.levelsBelow : List ResolvedField → Nat
  | [] => 0
  | ⟨_, _, _, none⟩ :: fields => ResolvedField.levelsBelow fields
  | ⟨_, _, _, some d⟩ :: fields => max d.levels (ResolvedField.levelsBelow fields)

end

/-- A field of a level on a record type is the one that the registry has under its name. Its key is
the alias of its request or else its name, and it has a descriptor when a list that is not empty
stands behind the request: that of the record type which it refers to. -/
structure ResolvedField.Sound (r : Registry) (model : String) (f : ResolvedField) : Prop where
  declared : r.field model f.source.name = .ok f.source
  key_eq : f.key = f.spec.alias?.getD f.source.name
  nested_iff : (∃ n, f.nested = some n) ↔ ∃ specs, f.spec.nested = some specs ∧ specs ≠ []
  target : ∀ n, f.nested = some n →
    n.model = f.source.nestedModel.getD f.source.type ∧ n.model ∉ primitiveTypes
  flags : ∀ n, f.nested = some n → n.isFlat = false ∧ n.isFlatLists = false

/-- A level is one of a record type that is there, its keys are distinct, so that each of its fields
is found by its key, and its fields are sound. -/
structure Descriptor.Sound (r : Registry) (d : Descriptor) : Prop where
  known : ∃ m, r.find? d.model = some m
  distinct : d.keys.Nodup
  found : ∀ f ∈ d.fields, d.field? f.key = some f
  fields : ∀ f ∈ d.fields, f.Sound r d.model

/-! ## Levels -/

theorem ResolvedField.levelsBelow_le {fields : List ResolvedField} {k : Nat}
    (h : ∀ f ∈ fields, ∀ n, f.nested = some n → n.levels ≤ k) : levelsBelow fields ≤ k := by
  induction fields with
  | nil => exact Nat.zero_le k
  | cons f fields ih =>
    obtain ⟨hhere, hrest⟩ := List.forall_mem_cons.1 h
    cases f with
    | mk source spec key nested =>
      cases nested with
      | none => exact ih hrest
      | some n => exact Nat.max_le.2 ⟨hhere n rfl, ih hrest⟩

theorem Descriptor.levels_eq (d : Descriptor) :
    d.levels = ResolvedField.levelsBelow d.fields + 1 := by
  cases d with
  | mk model fields isFlat isFlatLists => rw [levels]

/-! ## Record types of values -/

theorem FieldSchema.eq_getD_of_target? {source : FieldSchema} {target : String}
    (h : source.target? = some target) : target = source.nestedModel.getD source.type := by
  rw [target?] at h
  cases hmodel : source.nestedModel with
  | some m => simpa [hmodel, eq_comm] using h
  | none =>
    rw [hmodel] at h
    split at h <;> simp_all

namespace Registry

/-! ## What is built is sound -/

section Built
variable {r : Registry} {maxDepth : Nat} (hr : r.Regular)
include hr

theorem Regular.field_eq {name : String} {m : Model} (hm : r.find? name = some m)
    {source : FieldSchema} (h : source ∈ m.fields) : r.field name source.name = .ok source := by
  obtain rfl := name_of_find? hm
  exact (field_eq_ok_iff hm).2 (Entries.find?_of_nodup (hr.distinct m (mem_models_of_find? hm)) h)

theorem Regular.notMem_primitiveTypes {name : String} {m : Model} (hm : r.find? name = some m) :
    name ∉ primitiveTypes := by
  exact name_of_find? hm ▸ hr.notPrimitive m (mem_models_of_find? hm)

/-- A field that is built from a field of a record type is sound. -/
theorem sound_of_builds {path : List String} {name : String} {m : Model}
    (hm : r.find? name = some m) {spec : FieldSpec} {source : FieldSchema}
    (hsource : source ∈ m.fields) {f : ResolvedField} (h : r.Builds maxDepth path spec source f) :
    f.Sound r name := by
  have hdeclared := hr.field_eq hm hsource
  rcases h.nested_cases with
    ⟨hplain, hnone⟩ | ⟨specs, target, fields, hspecs, hne, htarget, -, hfields, hsome⟩
  · obtain ⟨rfl, rfl, hkey, -, -⟩ := h
    refine ⟨hdeclared, hkey, ?_, by simp [hnone], by simp [hnone]⟩
    simpa [hnone] using hplain
  · obtain ⟨rfl, rfl, hkey, -, -⟩ := h
    obtain ⟨m', -, hm', -⟩ := fieldsAt_eq_ok_iff.1 hfields
    refine ⟨hdeclared, hkey, ?_, ?_, ?_⟩
    · simpa [hsome, hspecs] using hne
    · intro n hn
      obtain rfl := Option.some.inj (hsome.symm.trans hn)
      exact ⟨FieldSchema.eq_getD_of_target? htarget, hr.notMem_primitiveTypes hm'⟩
    · intro n hn
      obtain rfl := Option.some.inj (hsome.symm.trans hn)
      exact ⟨rfl, rfl⟩

/-- The fields of a level make sound levels with any flags, and no more of them than there is room
for. -/
theorem sound_of_fieldsAt {path : List String} {target : String} {specs : List FieldSpec}
    {fields : List ResolvedField} (h : r.fieldsAt maxDepth path target specs = .ok fields)
    (hpath : path.length ≤ maxDepth) :
    (∀ isFlat isFlatLists,
      (Descriptor.mk target fields isFlat isFlatLists).Everywhere (Descriptor.Sound r)) ∧
    path.length + ResolvedField.levelsBelow fields ≤ maxDepth := by
  revert hpath
  refine fieldsAt_induction (Q := fun path target fields => path.length ≤ maxDepth →
    (∀ isFlat isFlatLists,
      (Descriptor.mk target fields isFlat isFlatLists).Everywhere (Descriptor.Sound r)) ∧
    path.length + ResolvedField.levelsBelow fields ≤ maxDepth) ?_ h
  intro path target m specs built hm hbuilt hinside hpath
  have hfrom (f : ResolvedField) (hf : f ∈ mergeByKey built) : f ∈ built ∧
      ∃ spec source, source ∈ m.fields ∧ r.Builds maxDepth path spec source f := by
    have hmem := mem_of_mem_mergeByKey hf
    obtain ⟨⟨spec, source⟩, hp, hbuilds⟩ := exists_of_mem_forall₂ hbuilt hmem
    exact ⟨hmem, spec, source,
      Model.mem_fields_of_askedBy (Model.mem_requested_iff.1 hp).2, hbuilds⟩
  -- what stands behind a field, one step down the path
  have hbelow (f : ResolvedField) (hf : f ∈ mergeByKey built) (n : Descriptor)
      (hn : f.nested = some n) :
      n.Everywhere (Descriptor.Sound r) ∧ path.length + n.levels ≤ maxDepth := by
    obtain ⟨hmem, spec, source, -, hbuilds⟩ := hfrom f hf
    rcases hbuilds.nested_cases with ⟨-, hnone⟩ | ⟨-, target, fields, -, -, -, hroom, -, hsome⟩
    · simp [hnone] at hn
    obtain rfl := Option.some.inj (hsome.symm.trans hn)
    have hlength : (path ++ [target]).length = path.length + 1 := by simp
    obtain ⟨heverywhere, hlevels⟩ := hinside f hmem _ hn (hlength ▸ hroom)
    refine ⟨heverywhere false false, ?_⟩
    rw [hlength] at hlevels
    rw [Descriptor.levels_eq]
    omega
  refine ⟨fun isFlat isFlatLists => .intro ?_ fun f hf n hn => (hbelow f hf n hn).1, ?_⟩
  · refine ⟨⟨m, hm⟩, nodup_keys_mergeByKey built,
      fun f hf => Entries.find?_of_nodup (nodup_keys_mergeByKey built) hf, ?_⟩
    intro f hf
    obtain ⟨-, spec, source, hsource, hbuilds⟩ := hfrom f hf
    exact sound_of_builds hr hm hsource hbuilds
  · have hlevels : ResolvedField.levelsBelow (mergeByKey built) ≤ maxDepth - path.length := by
      apply ResolvedField.levelsBelow_le
      intro f hf n hn
      have := (hbelow f hf n hn).2
      omega
    omega

end Built

end Registry

/-- Whatever was asked of an engine before, each descriptor that it gives is well formed: every
level is sound, the outermost one belongs to the record type that was asked for and has the flags
of the shape, and there are no more levels than the limit allows. -/
theorem Engine.descriptor_wellFormed {e : Engine} (hr : e.registry.Loaded) (before : List Request)
    {base : String} {shape : Shape} {d : Descriptor}
    (h : e.descriptorAfter before base shape = .ok d) :
    d.Everywhere (Descriptor.Sound e.registry) ∧ d.model = base ∧
      d.isFlat = shape.isFlat ∧ d.isFlatLists = shape.isFlatLists ∧ d.levels ≤ e.maxDepth.1 := by
  rw [descriptorAfter_eq, plainDescriptor, exceptMapError_eq_ok_iff,
    Registry.resolve_eq_ok_iff_fieldsAt] at h
  cases d with
  | mk model fields isFlat isFlatLists =>
    obtain ⟨hfields, rfl, hflat, hflatLists⟩ := h
    obtain ⟨hsound, hlevels⟩ := Registry.sound_of_fieldsAt hr.regular hfields e.maxDepth.2
    refine ⟨hsound isFlat isFlatLists, rfl, hflat, hflatLists, ?_⟩
    rw [Descriptor.levels_eq, Nat.add_comm]
    exact hlevels

/-- The recipient of a contract with all of its fields, the key of the contract under another name,
and all fields once more: asked for a second time, the descriptor is well formed as well. -/
theorem Engine.contract_descriptor_wellFormed :
    let shape : Shape := ⟨[.named "recipient" none (some [.all]) (by decide),
      .named "key" (some "piid") none (by decide), .all], true, false⟩
    ∃ d, (ofSettings Registry.builtin .default).descriptorAfter
        [.ask (.descriptor "Contract") (.shape shape) none none, .forgetShapes] "Contract" shape =
          .ok d ∧
      d.Everywhere (Descriptor.Sound Registry.builtin) ∧ d.model = "Contract" ∧ d.isFlat = true ∧
        d.isFlatLists = false ∧ d.levels ≤ 32 := by
  intro shape
  obtain ⟨d, hd⟩ : ∃ d, Registry.builtin.resolve 32 "Contract" shape = .ok d := ⟨_, rfl⟩
  have hresult : (ofSettings Registry.builtin .default).descriptorAfter
      [.ask (.descriptor "Contract") (.shape shape) none none, .forgetShapes] "Contract" shape =
        .ok d := by
    rw [descriptorAfter_eq]
    exact congrArg (Except.mapError Failure.schema) hd
  exact ⟨d, hresult, descriptor_wellFormed .builtin _ hresult⟩

end RecordProjection
