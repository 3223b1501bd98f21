import RecordProjection.Proofs.Descriptor.Exactness
import RecordProjection.Proofs.Descriptor.Levels

/-!
# How a level is built

The fields of a level, whether it is the outermost one or lies behind a list in parentheses, are
built in the same way: each request is resolved at the fields that it stands for, one after the
other, and what comes of it is merged. A field that is built goes back to a request and to a field
of the record type, and has a descriptor of its own when a list stands behind the request; the
fields of that descriptor are again those of a level.

## Main definitions

* `Registry.fieldsAt` : the fields of a level, built from the requests that are made there.
* `Model.requested` : the requests of a level with the fields that they stand for, in order.
* `Registry.Builds` : a field that is built from a request and a field of the record type.
-/
namespace RecordProjection

/-- A field of a descriptor is given by its parts. -/
theorem ResolvedField.ext_parts {f g : ResolvedField} (hsource : f.source = g.source)
    (hspec : f.spec = g.spec) (hkey : f.key = g.key) (hnested : f.nested = g.nested) : f = g := by
  cases f
  cases g
  simp_all

namespace Model

/-- The fields of a record type that a request stands for: all of them for a wildcard. -/
def askedBy (m : Model) : FieldSpec → List FieldSchema
  | .wildcard .. => m.fields
  | .named name .. => (m.field? name).toList

/-- Requests with the fields that they stand for, one after the other. -/
def requested (m : Model) (specs : List FieldSpec) : List (FieldSpec × FieldSchema) :=
  specs.flatMap fun spec => (m.askedBy spec).map fun source => (spec, source)

theorem mem_fields_of_askedBy {m : Model} {spec : FieldSpec} {source : FieldSchema}
    (h : source ∈ m.askedBy spec) : source ∈ m.fields := by
  cases spec with
  | wildcard label nested => exact h
  | named name key nested hname => exact List.mem_of_find?_eq_some (Option.mem_toList.1 h)

theorem mem_requested_iff {m : Model} {specs : List FieldSpec} {p : FieldSpec × FieldSchema} :
    p ∈ m.requested specs ↔ p.1 ∈ specs ∧ p.2 ∈ m.askedBy p.1 := by
  obtain ⟨spec, source⟩ := p
  simp only [requested, List.mem_flatMap, List.mem_map, Prod.mk.injEq]
  constructor
  · rintro ⟨_, hspec, _, hsource, rfl, rfl⟩
    exact ⟨hspec, hsource⟩
  · rintro ⟨hspec, hsource⟩
    exact ⟨spec, hspec, source, hsource, rfl, rfl⟩

/-- A request finds what it asks for: the field that it names is there. -/
def Has (m : Model) : FieldSpec → Prop
  | .wildcard .. => True
  | .named name .. => ∃ f ∈ m.fields, f.name = name

end Model

namespace Registry

/-- The fields of a level at the end of a path, built from the requests that are made there. -/
def fieldsAt (r : Registry) (maxDepth : Nat) (path : List String) (target : String)
    (specs : List FieldSpec) : Except SchemaError (List ResolvedField) := do
  let model ← r.model target
  let fields ← r.resolveSpecs maxDepth path model specs
  .ok (mergeByKey fields)

/-- A field is built from a request and a field of the record type. It has a descriptor when a list
that is not empty stands behind the request, and then its fields are those of the level there. -/
structure Builds (r : Registry) (maxDepth : Nat) (path : List String) (spec : FieldSpec)
    (source : FieldSchema) (f : ResolvedField) : Prop where
  source_eq : f.source = source
  spec_eq : f.spec = spec
  key_eq : f.key = spec.alias?.getD source.name
  plain : (∀ specs ∈ spec.nested, specs = []) → f.nested = none
  nested : ∀ specs, spec.nested = some specs → specs ≠ [] → ∃ target fields,
    source.target? = some target ∧ path.length < maxDepth ∧
      r.fieldsAt maxDepth (path ++ [target]) target (innerRequests specs) = .ok fields ∧
      f.nested = some ⟨target, fields, false, false⟩

/-- A field that is built has no descriptor, or that of the level which its list is resolved on. -/
theorem Builds.nested_cases {r : Registry} {maxDepth : Nat} {path : List String} {spec : FieldSpec}
    {source : FieldSchema} {f : ResolvedField} (h : r.Builds maxDepth path spec source f) :
    (∀ specs ∈ spec.nested, specs = []) ∧ f.nested = none ∨
      ∃ specs target fields, spec.nested = some specs ∧ specs ≠ [] ∧
        source.target? = some target ∧ path.length < maxDepth ∧
        r.fieldsAt maxDepth (path ++ [target]) target (innerRequests specs) = .ok fields ∧
        f.nested = some ⟨target, fields, false, false⟩ := by
  rcases plain_or_list spec with hplain | ⟨specs, hspecs, hne⟩
  · exact .inl ⟨hplain, h.plain hplain⟩
  · obtain ⟨target, fields, hbuilt⟩ := h.nested specs hspecs hne
    exact .inr ⟨specs, target, fields, hspecs, hne, hbuilt⟩

/-! ## Requests for a level -/

section Requests
variable {r : Registry} {maxDepth : Nat} {path : List String} {model : Model}

theorem resolveSpecs_append (specs specs' : List FieldSpec) :
    r.resolveSpecs maxDepth path model (specs ++ specs') = (do
      let fields ← r.resolveSpecs maxDepth path model specs
      let more ← r.resolveSpecs maxDepth path model specs'
      .ok (fields ++ more)) := by
  induction specs with
  | nil =>
    rw [List.nil_append, resolveSpecs]
    cases r.resolveSpecs maxDepth path model specs' <;> rfl
  | cons spec specs ih =>
    rw [List.cons_append, resolveSpecs, resolveSpecs, ih]
    cases r.resolveSpec maxDepth path model spec with
    | error e => rfl
    | ok fields =>
      cases r.resolveSpecs maxDepth path model specs with
      | error e => rfl
      | ok more =>
        cases r.resolveSpecs maxDepth path model specs' with
        | error e => rfl
        | ok others => exact congrArg Except.ok (List.append_assoc fields more others).symm

theorem resolveSpecs_singleton (spec : FieldSpec) :
    r.resolveSpecs maxDepth path model [spec] = r.resolveSpec maxDepth path model spec := by
  rw [resolveSpecs, resolveSpecs]
  cases r.resolveSpec maxDepth path model spec with
  | error e => rfl
  | ok fields => exact congrArg Except.ok (List.append_nil fields)

/-- A request for a field that is there is resolved at this field. -/
theorem resolveSpec_named {name : String} {key : Option String} {nested : Option (List FieldSpec)}
    {h : name ≠ "*"} {source : FieldSchema} (hsource : r.field model.name name = .ok source) :
    r.resolveSpec maxDepth path model (.named name key nested h) =
      (r.resolveAt maxDepth path model (.named name key nested h)
        (fun path m => r.resolveInner maxDepth path m nested) source).map fun f => [f] := by
  rw [resolveSpec_eq, sources, hsource]
  simp only [Except.map, bind, Except.bind, List.mapM_cons, List.mapM_nil]
  rfl

/-- A wildcard with no list behind it, or with an empty one, gives all fields as they are. -/
theorem resolveSpec_wildcard {label : String} {nested : Option (List FieldSpec)}
    (h : ∀ specs ∈ nested, specs = []) :
    r.resolveSpec maxDepth path model (.wildcard label nested) =
      .ok (model.fields.map (leaf (.wildcard label nested))) := by
  rw [resolveSpec_eq]
  refine exceptMapM_eq_ok_iff.2 (List.forall₂_map_right_iff.2 (List.forall₂_same.2 ?_))
  intro source _
  exact resolveAt_of_no_list h

/-- A wildcard on its own is a plain one behind a field, and the level there is like any other. -/
theorem innerFields_eq_fieldsAt (target : String) (specs : List FieldSpec) :
    r.innerFields target specs (fun m => r.resolveInner maxDepth path m (some specs)) =
      r.fieldsAt maxDepth path target (innerRequests specs) := by
  by_cases hlone : ∃ label nested, specs = [.wildcard label nested]
  · obtain ⟨label, nested, rfl⟩ := hlone
    have hall (m : Model) :
        r.resolveSpecs maxDepth path m [.all] = .ok (m.fields.map (leaf .all)) := by
      rw [resolveSpecs_singleton, FieldSpec.all, resolveSpec_wildcard (by simp)]
    rw [innerFields, allFields, innerRequests, fieldsAt]
    simp only [hall]
    cases r.model target <;> rfl
  · have hother (label : String) (nested : Option (List FieldSpec)) :
        specs ≠ [.wildcard label nested] := fun h => hlone ⟨label, nested, h⟩
    rw [innerFields.eq_2 _ _ _ _ hother, innerRequests.eq_2 _ hother]
    rfl

/-- The outermost level is built like any other. -/
theorem resolve_eq_fieldsAt (base : String) (shape : Shape) :
    r.resolve maxDepth base shape = (r.fieldsAt maxDepth [base] base shape.fields).map
      fun fields => ⟨base, fields, shape.isFlat, shape.isFlatLists⟩ := by
  rw [resolve, fieldsAt]
  cases r.model base with
  | error e => rfl
  | ok m =>
    simp only [bind, Except.bind]
    cases r.resolveSpecs maxDepth [base] m shape.fields <;> rfl

/-- A descriptor has the fields of the outermost level, and the flags of the shape. -/
theorem resolve_eq_ok_iff_fieldsAt {base : String} {shape : Shape} {d : Descriptor} :
    r.resolve maxDepth base shape = .ok d ↔
      r.fieldsAt maxDepth [base] base shape.fields = .ok d.fields ∧ d.model = base ∧
        d.isFlat = shape.isFlat ∧ d.isFlatLists = shape.isFlatLists := by
  rw [resolve_eq_fieldsAt, exceptMap_eq_ok_iff]
  constructor
  · rintro ⟨fields, hfields, rfl⟩
    exact ⟨hfields, rfl, rfl, rfl⟩
  · cases d with
    | mk model fields isFlat isFlatLists =>
      rintro ⟨hfields, rfl, rfl, rfl⟩
      exact ⟨fields, hfields, rfl⟩

/-- What a request resolves to at a field is what is built from the two. -/
theorem resolveAt_eq_ok_iff_builds {spec : FieldSpec} {source : FieldSchema} {f : ResolvedField} :
    r.resolveAt maxDepth path model spec
        (fun path m => r.resolveInner maxDepth path m spec.nested) source = .ok f ↔
      r.Builds maxDepth path spec source f := by
  rcases plain_or_list spec with hplain | ⟨specs, hspecs, hne⟩
  · rw [resolveAt_of_no_list hplain]
    constructor
    · intro h
      obtain rfl := Except.ok.inj h
      refine ⟨rfl, rfl, rfl, fun _ => rfl, ?_⟩
      intro specs hspecs hne
      exact absurd (hplain specs hspecs) hne
    · intro h
      exact congrArg Except.ok
        (ResolvedField.ext_parts h.source_eq h.spec_eq h.key_eq (h.plain hplain)).symm
  · rw [resolveAt_eq_ok_iff hspecs hne, hspecs]
    simp only [innerFields_eq_fieldsAt]
    constructor
    · rintro ⟨⟨target, below⟩, fields, hnext, hfields, rfl⟩
      obtain ⟨htarget, hroom, rfl⟩ := descend_eq_ok_iff.1 hnext
      refine ⟨rfl, rfl, rfl, fun h => absurd (h specs hspecs) hne, ?_⟩
      intro specs' hspecs' _
      obtain rfl : specs = specs' := Option.some.inj (hspecs.symm.trans hspecs')
      exact ⟨target, fields, htarget, hroom, hfields, rfl⟩
    · intro h
      obtain ⟨target, fields, htarget, hroom, hfields, hnested⟩ := h.nested specs hspecs hne
      exact ⟨(target, path ++ [target]), fields, descend_eq_ok_iff.2 ⟨htarget, hroom, rfl⟩, hfields,
        ResolvedField.ext_parts h.source_eq h.spec_eq h.key_eq hnested⟩

/-- The fields that a request stands for are there when it finds what it asks for. -/
theorem sources_eq_ok_iff (hmodel : r.find? model.name = some model) {spec : FieldSpec}
    {sources : List FieldSchema} :
    r.sources model spec = .ok sources ↔ model.Has spec ∧ sources = model.askedBy spec := by
  cases spec with
  | wildcard label nested => simp [Registry.sources, Model.Has, Model.askedBy, eq_comm]
  | named name key nested h =>
    rw [Model.Has, ← field?_isSome_iff, Model.askedBy]
    simp only [Registry.sources, exceptMap_eq_ok_iff, field_eq_ok_iff hmodel]
    cases model.field? name <;> simp [eq_comm]

/-- A request is resolved when it finds what it asks for, and every field that it stands for can be
built. -/
theorem resolveSpec_eq_ok_iff (hmodel : r.find? model.name = some model) {spec : FieldSpec}
    {fields : List ResolvedField} : r.resolveSpec maxDepth path model spec = .ok fields ↔
      model.Has spec ∧ List.Forall₂ (r.Builds maxDepth path spec) (model.askedBy spec) fields := by
  rw [resolveSpec_eq, exceptBind_eq_ok_iff]
  simp only [exceptMapM_eq_ok_iff, resolveAt_eq_ok_iff_builds, sources_eq_ok_iff hmodel]
  constructor
  · rintro ⟨_, ⟨hhas, rfl⟩, hbuilt⟩
    exact ⟨hhas, hbuilt⟩
  · rintro ⟨hhas, hbuilt⟩
    exact ⟨_, ⟨hhas, rfl⟩, hbuilt⟩

/-- Requests are resolved when each of them finds what it asks for, and every field that they stand
for can be built. -/
theorem resolveSpecs_eq_ok_iff (hmodel : r.find? model.name = some model) {specs : List FieldSpec}
    {fields : List ResolvedField} : r.resolveSpecs maxDepth path model specs = .ok fields ↔
      (∀ spec ∈ specs, model.Has spec) ∧
        List.Forall₂ (fun p f => r.Builds maxDepth path p.1 p.2 f) (model.requested specs)
          fields := by
  induction specs generalizing fields with
  | nil => simp [resolveSpecs, Model.requested, eq_comm]
  | cons spec specs ih =>
    have hhere (built : List ResolvedField) :
        List.Forall₂ (fun p f => r.Builds maxDepth path p.1 p.2 f)
          ((model.askedBy spec).map fun source => (spec, source)) built ↔
        List.Forall₂ (r.Builds maxDepth path spec) (model.askedBy spec) built :=
      List.forall₂_map_left_iff
    rw [resolveSpecs, exceptBind_eq_ok_iff, List.forall_mem_cons, Model.requested,
      List.flatMap_cons, ← Model.requested]
    simp only [exceptBind_eq_ok_iff, resolveSpec_eq_ok_iff hmodel, ih, Except.ok.injEq]
    constructor
    · rintro ⟨here, ⟨hhas, hbuilt⟩, more, ⟨hmore, hrest⟩, rfl⟩
      exact ⟨⟨hhas, hmore⟩, List.rel_append ((hhere here).2 hbuilt) hrest⟩
    · rintro ⟨⟨hhas, hmore⟩, hall⟩
      obtain ⟨here, more, hbuilt, hrest, rfl⟩ := forall₂_append_left_iff.1 hall
      exact ⟨here, ⟨hhas, (hhere here).1 hbuilt⟩, more, ⟨hmore, hrest⟩, rfl⟩

/-- The fields of a level are built from the fields that its requests stand for, and merged. -/
theorem fieldsAt_eq_ok_iff {target : String} {specs : List FieldSpec}
    {fields : List ResolvedField} : r.fieldsAt maxDepth path target specs = .ok fields ↔
      ∃ m built, r.find? target = some m ∧ (∀ spec ∈ specs, m.Has spec) ∧
        List.Forall₂ (fun p f => r.Builds maxDepth path p.1 p.2 f) (m.requested specs) built ∧
        fields = mergeByKey built := by
  rw [fieldsAt, Registry.model]
  cases hm : r.find? target with
  | none => simp [bind, Except.bind]
  | some m =>
    simp only [exceptBind_eq_ok_iff, Except.ok.injEq, Option.some.injEq]
    constructor
    · rintro ⟨_, rfl, built, hbuilt, rfl⟩
      obtain ⟨hhas, hall⟩ := (resolveSpecs_eq_ok_iff (find?_name hm)).1 hbuilt
      exact ⟨m, built, rfl, hhas, hall, rfl⟩
    · rintro ⟨_, built, rfl, hhas, hall, rfl⟩
      exact ⟨m, rfl, built, (resolveSpecs_eq_ok_iff (find?_name hm)).2 ⟨hhas, hall⟩, rfl⟩

end Requests

/-! ## Induction over the levels -/

section Induction
variable {r : Registry} {maxDepth : Nat} {Q : List String → String → List ResolvedField → Prop}
  (hstep : ∀ path target m specs built, r.find? target = some m →
    List.Forall₂ (fun p f => r.Builds maxDepth path p.1 p.2 f) (m.requested specs) built →
    (∀ f ∈ built, ∀ n, f.nested = some n → Q (path ++ [n.model]) n.model n.fields) →
    Q path target (mergeByKey built))
include hstep

theorem fieldsAt_induction_of_forall {path : List String} {target : String}
    {specs : List FieldSpec} {fields : List ResolvedField}
    (hspecs : ∀ spec ∈ specs, ∀ path source f, r.Builds maxDepth path spec source f →
      ∀ n, f.nested = some n → Q (path ++ [n.model]) n.model n.fields)
    (h : r.fieldsAt maxDepth path target specs = .ok fields) : Q path target fields := by
  obtain ⟨m, built, hm, -, hall, rfl⟩ := fieldsAt_eq_ok_iff.1 h
  refine hstep path target m specs built hm hall ?_
  intro f hf
  obtain ⟨⟨spec, source⟩, hp, hbuilds⟩ := exists_of_mem_forall₂ hall hf
  exact hspecs spec (Model.mem_requested_iff.1 hp).1 path source f hbuilds

theorem nested_of_builds (spec : FieldSpec) : ∀ path source f,
    r.Builds maxDepth path spec source f →
      ∀ n, f.nested = some n → Q (path ++ [n.model]) n.model n.fields := by
  induction spec using FieldSpec.induction with
  | step spec ih =>
    intro path source f h n hn
    rcases h.nested_cases with ⟨-, hnone⟩ | ⟨specs, target, fields, hspecs, -, -, -, hfields, hsome⟩
    · simp [hnone] at hn
    obtain rfl := Option.some.inj (hsome.symm.trans hn)
    refine fieldsAt_induction_of_forall hstep ?_ hfields
    intro g hg path source f hf
    rcases mem_innerRequests hg with rfl | hg
    · intro n hn
      simp [hf.plain (by simp [FieldSpec.all, FieldSpec.nested])] at hn
    · exact ih specs hspecs g hg path source f hf

/-- What holds of the fields of a level when it holds of the levels behind them holds of the fields
of every level. -/
theorem fieldsAt_induction {path : List String} {target : String} {specs : List FieldSpec}
    {fields : List ResolvedField} (h : r.fieldsAt maxDepth path target specs = .ok fields) :
    Q path target fields :=
  fieldsAt_induction_of_forall hstep (fun spec _ => nested_of_builds hstep spec) h

end Induction

/-- A resolved descriptor uses no key twice at any level. -/
theorem distinctKeys_of_resolve {r : Registry} {maxDepth : Nat} {base : String} {shape : Shape}
    {d : Descriptor} (h : r.resolve maxDepth base shape = .ok d) : d.DistinctKeys := by
  obtain ⟨hfields, rfl, -, -⟩ := resolve_eq_ok_iff_fieldsAt.1 h
  have hlevel : ∀ isFlat isFlatLists,
      (Descriptor.mk d.model d.fields isFlat isFlatLists).DistinctKeys := by
    refine fieldsAt_induction (Q := fun _ target fields => ∀ isFlat isFlatLists,
      (Descriptor.mk target fields isFlat isFlatLists).DistinctKeys) ?_ hfields
    intro path target m specs built _ hbuilt hinside isFlat isFlatLists
    refine .intro (nodup_keys_mergeByKey built) ?_
    intro f hf n hn
    have hmem := mem_of_mem_mergeByKey hf
    cases n with
    | mk model fields isFlat isFlatLists => exact hinside f hmem _ hn isFlat isFlatLists
  cases d with
  | mk model fields isFlat isFlatLists => exact hlevel isFlat isFlatLists

end Registry
end RecordProjection
