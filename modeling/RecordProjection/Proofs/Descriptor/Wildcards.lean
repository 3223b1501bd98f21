import RecordProjection.Proofs.Descriptor.WellFormed
import RecordProjection.Proofs.Engine.Lists
import RecordProjection.Proofs.Record.Nesting

/-!
# Wildcards spelled out

A plain wildcard stands for the names of all fields of its record type: where a wildcard is replaced
by these names, in the outermost list or in one behind named fields, the shape is resolved to the
same descriptor but for the requests that its fields go back to, and fails with the same error.

## Main definitions

* `Model.spelledOut` : the plain requests for all fields of a record type.
* `Registry.SpellsOut` : requests with one of their plain wildcards spelled out.
* `Descriptor.bare` : a descriptor without the requests that its fields go back to.
-/
namespace RecordProjection

/-! ## Spelling out -/

/-- The request for the field of a name and nothing else; `*` is the plain wildcard. -/
def FieldSpec.plain (name : String) : FieldSpec :=
  if h : name = "*" then .all else .named name none none h

/-- The plain requests for all fields of a record type, in the order of their declaration. -/
def Model.spelledOut (m : Model) : List FieldSpec := m.fields.map fun f => .plain f.name

/-- The second requests are the first with one wildcard spelled out, a wildcard without a list or
with an empty one. It is one of the requests on the record type itself, or it stands in a list
behind a named field, on the record type of the field's value. -/
inductive Registry.SpellsOut (r : Registry) : Model → List FieldSpec → List FieldSpec → Prop
  | here {m : Model} {before after : List FieldSpec} {label : String}
      {nested : Option (List FieldSpec)} (hempty : ∀ specs ∈ nested, specs = [])
      (hfields : m.fields ≠ []) :
      SpellsOut r m (before ++ .wildcard label nested :: after) (before ++ m.spelledOut ++ after)
  | inside {m target : Model} {before after specs specs' : List FieldSpec} {name : String}
      {key : Option String} {h : name ≠ "*"} {source : FieldSchema} {targetName : String}
      (hsource : m.field? name = some source) (htarget : source.target? = some targetName)
      (hmodel : r.find? targetName = some target) (hspecs : SpellsOut r target specs specs') :
      SpellsOut r m (before ++ .named name key (some specs) h :: after)
        (before ++ .named name key (some specs') h :: after)

/-- Neither list is empty. -/
theorem Registry.SpellsOut.ne_nil {r : Registry} {m : Model} {specs specs' : List FieldSpec}
    (h : r.SpellsOut m specs specs') : specs ≠ [] ∧ specs' ≠ [] := by
  cases h with
  | here _ hfields => simp [Model.spelledOut, hfields]
  | inside _ _ _ _ => simp

/-- A wildcard does not stand alone where a field is named. -/
theorem ne_wildcard_of_mem {specs : List FieldSpec} {spec : FieldSpec} (h : spec ∈ specs)
    (hnamed : spec.isWildcard = false) (label : String) (nested : Option (List FieldSpec)) :
    specs ≠ [.wildcard label nested] := by
  rintro rfl
  obtain rfl := List.mem_singleton.1 h
  exact absurd hnamed (by simp [FieldSpec.isWildcard])

/-- A wildcard that stands alone in either of them has no list, or an empty one. -/
theorem Registry.SpellsOut.lone {r : Registry} {m : Model} {specs specs' : List FieldSpec}
    (hstar : ∀ f ∈ m.fields, f.name ≠ "*") (h : r.SpellsOut m specs specs') (label : String)
    (nested : Option (List FieldSpec)) :
    (specs = [.wildcard label nested] → ∀ specs ∈ nested, specs = []) ∧
      specs' ≠ [.wildcard label nested] := by
  cases h with
  | @here _ before after label' nested' hempty hfields =>
    constructor
    · intro h
      have hmem : FieldSpec.wildcard label' nested' ∈ [FieldSpec.wildcard label nested] :=
        h ▸ List.mem_append_right before List.mem_cons_self
      obtain ⟨rfl, rfl⟩ := FieldSpec.wildcard.inj (List.mem_singleton.1 hmem)
      exact hempty
    · obtain ⟨f, hf⟩ := List.exists_mem_of_ne_nil m.fields hfields
      have hmem : FieldSpec.plain f.name ∈ before ++ m.spelledOut ++ after :=
        List.mem_append_left _ (List.mem_append_right _ (List.mem_map_of_mem hf))
      refine ne_wildcard_of_mem hmem ?_ label nested
      rw [FieldSpec.plain, dif_neg (hstar f hf)]
      rfl
  | inside hsource htarget hmodel hspecs =>
    constructor
    · intro h
      exact absurd h (ne_wildcard_of_mem (List.mem_append_right _ List.mem_cons_self) rfl _ _)
    · exact ne_wildcard_of_mem (List.mem_append_right _ List.mem_cons_self) rfl _ _

/-! ## Descriptors without requests -/

mutual

/-- A descriptor without the requests that its fields go back to, at any level. -/
def Descriptor.bare : Descriptor → Descriptor
  | ⟨model, fields, isFlat, isFlatLists⟩ =>
    ⟨model, ResolvedField.bareAll fields, isFlat, isFlatLists⟩

/-- Fields without the requests that they go back to. -/
def ResolvedField.bareAll : List ResolvedField → List ResolvedField
  | [] => []
  | ⟨source, _, key, none⟩ :: fields => ⟨source, .all, key, none⟩ :: ResolvedField.bareAll fields
  | ⟨source, _, key, some d⟩ :: fields =>
    ⟨source, .all, key, some d.bare⟩ :: ResolvedField.bareAll fields

end

/-- A field without the requests that it and the fields below it go back to. -/
def ResolvedField.bare (f : ResolvedField) : ResolvedField :=
  ⟨f.source, .all, f.key, f.nested.map Descriptor.bare⟩

theorem ResolvedField.bareAll_eq_map (fields : List ResolvedField) :
    bareAll fields = fields.map bare := by
  induction fields with
  | nil => rfl
  | cons f fields ih =>
    obtain ⟨source, spec, key, nested⟩ := f
    cases nested with
    | none => rw [bareAll, ih]; rfl
    | some d => rw [bareAll, ih]; rfl

theorem Descriptor.bare_eq (d : Descriptor) :
    d.bare = ⟨d.model, d.fields.map ResolvedField.bare, d.isFlat, d.isFlatLists⟩ := by
  obtain ⟨model, fields, isFlat, isFlatLists⟩ := d
  rw [bare, ResolvedField.bareAll_eq_map]

/-- The requests of its fields have no part in the walk along a descriptor, at any level. -/
theorem Descriptor.project_bare (d : Descriptor) : ∀ v l, d.bare.project v l = d.project v l := by
  induction d using Descriptor.induction with
  | step d ih =>
    intro v l
    rw [bare_eq]
    rcases v.mapping_or_not with ⟨members, rfl⟩ | hv
    · rw [project_mapping, project_mapping]
      congr 1
      refine ResolvedField.rows_eq_of_forall₂ ?_
      refine List.forall₂_map_left_iff.2 (List.forall₂_same.2 fun f hf => ⟨rfl, rfl, ?_⟩)
      intro v l
      cases hnested : f.nested with
      | none =>
        rw [ResolvedField.project_of_nested_none hnested,
          ResolvedField.project_of_nested_none (by simp [ResolvedField.bare, hnested])]
        rfl
      | some n =>
        have hproject : n.bare.project = n.project := funext₂ (ih f hf n hnested)
        have hmodel : n.bare.model = n.model := by rw [bare_eq]
        rw [ResolvedField.project_of_nested_some hnested, ResolvedField.project_of_nested_some
          (n := n.bare) (by simp [ResolvedField.bare, hnested]), hproject, hmodel]
        rfl
    · rw [project_of_not_mapping _ hv, project_of_not_mapping d hv]

/-- Descriptors that differ in requests only give the same record for every payload, or fail with
the same error. -/
theorem Descriptor.record_eq_of_bare {d d' : Descriptor} (h : d.bare = d'.bare)
    (joiner : Option Joiner) (raw : Value) (origin : String) :
    d.record joiner raw origin = d'.record joiner raw origin := by
  have hflat : d.isFlat = d'.isFlat := by
    rw [bare_eq, bare_eq] at h
    exact (Descriptor.mk.inj h).2.2.1
  have hproject : d.project = d'.project := by
    funext v l
    rw [← d.project_bare, h, d'.project_bare]
  have hunflattened : d.unflattened joiner raw = d'.unflattened joiner raw := by
    simp only [unflattened, hflat]
  rw [record, record, hunflattened, hproject]

/-- Merging goes by the keys, which requests have no part in. -/
theorem map_bare_mergeByKey (fields : List ResolvedField) :
    (mergeByKey fields).map ResolvedField.bare = mergeByKey (fields.map ResolvedField.bare) := by
  have hpairs : (fields.map ResolvedField.bare).map (fun f => (f.key, f)) =
      (fields.map fun f => (f.key, f)).map fun p => (p.1, p.2.bare) := by
    simp [ResolvedField.bare]
  rw [mergeByKey, mergeByKey, hpairs, Entries.ofList_map]
  simp

namespace Registry

/-! ## Levels without requests -/

/-- What requests resolve to, without the requests themselves. -/
def bareSpecs (r : Registry) (maxDepth : Nat) (path : List String) (m : Model)
    (specs : List FieldSpec) : Except SchemaError (List ResolvedField) :=
  (r.resolveSpecs maxDepth path m specs).map (List.map ResolvedField.bare)

section Bare
variable {r : Registry} {maxDepth : Nat} {path : List String} {m : Model}

theorem bareSpecs_append (specs specs' : List FieldSpec) :
    r.bareSpecs maxDepth path m (specs ++ specs') = (do
      let fields ← r.bareSpecs maxDepth path m specs
      let more ← r.bareSpecs maxDepth path m specs'
      .ok (fields ++ more)) := by
  rw [bareSpecs, bareSpecs, bareSpecs, resolveSpecs_append]
  cases r.resolveSpecs maxDepth path m specs with
  | error e => rfl
  | ok fields =>
    cases r.resolveSpecs maxDepth path m specs' with
    | error e => rfl
    | ok more => exact congrArg Except.ok List.map_append

/-- A plain wildcard gives all fields of its record type. -/
theorem bareSpecs_wildcard {label : String} {nested : Option (List FieldSpec)}
    (h : ∀ specs ∈ nested, specs = []) :
    r.bareSpecs maxDepth path m [.wildcard label nested] =
      .ok (m.fields.map fun source => (leaf .all source).bare) := by
  rw [bareSpecs, resolveSpecs_singleton, resolveSpec_wildcard h]
  exact congrArg Except.ok List.map_map

/-- Requests give the same before and behind ones that do. -/
theorem bareSpecs_congr {specs specs' : List FieldSpec}
    (h : r.bareSpecs maxDepth path m specs = r.bareSpecs maxDepth path m specs')
    (before after : List FieldSpec) :
    r.bareSpecs maxDepth path m (before ++ (specs ++ after)) =
      r.bareSpecs maxDepth path m (before ++ (specs' ++ after)) := by
  rw [bareSpecs_append, bareSpecs_append, bareSpecs_append, bareSpecs_append, h]

/-- A level without requests is built from what its requests resolve to without them. -/
theorem map_bare_fieldsAt (r : Registry) (maxDepth : Nat) (path : List String) (target : String)
    (specs : List FieldSpec) :
    (r.fieldsAt maxDepth path target specs).map (List.map ResolvedField.bare) =
      r.model target >>= fun m => (r.bareSpecs maxDepth path m specs).map mergeByKey := by
  rw [fieldsAt]
  cases r.model target with
  | error e => rfl
  | ok m =>
    simp only [bind, Except.bind, bareSpecs]
    cases r.resolveSpecs maxDepth path m specs with
    | error e => rfl
    | ok fields => exact congrArg Except.ok (map_bare_mergeByKey fields)

/-- A wildcard on its own that has no list gives the same whether it is made a plain one or not. -/
theorem bareSpecs_innerRequests {specs : List FieldSpec}
    (h : ∀ label nested, specs = [.wildcard label nested] → ∀ specs ∈ nested, specs = []) :
    r.bareSpecs maxDepth path m (innerRequests specs) = r.bareSpecs maxDepth path m specs := by
  by_cases hlone : ∃ label nested, specs = [.wildcard label nested]
  · obtain ⟨label, nested, rfl⟩ := hlone
    rw [innerRequests, FieldSpec.all, bareSpecs_wildcard (h label nested rfl),
      bareSpecs_wildcard (by simp)]
  · rw [innerRequests.eq_2 _ fun label nested h => hlone ⟨label, nested, h⟩]

/-- A request with a list that is not empty gives its field with the level behind it. -/
theorem bareSpecs_named {name : String} {key : Option String} {h : name ≠ "*"}
    {source : FieldSchema} (hsource : r.field m.name name = .ok source) {specs : List FieldSpec}
    (hne : specs ≠ []) :
    r.bareSpecs maxDepth path m [.named name key (some specs) h] =
      descend maxDepth path m.name source >>= fun next =>
        ((r.fieldsAt maxDepth next.2 next.1 (innerRequests specs)).map
          (List.map ResolvedField.bare)).map fun fields =>
            [⟨source, .all, key.getD source.name, some ⟨next.1, fields, false, false⟩⟩] := by
  rw [bareSpecs, resolveSpecs_singleton, resolveSpec_named hsource, resolveAt_of_list rfl hne]
  simp only [innerFields_eq_fieldsAt]
  cases descend maxDepth path m.name source with
  | error e => rfl
  | ok next =>
    simp only [bind, Except.bind]
    cases r.fieldsAt maxDepth next.2 next.1 (innerRequests specs) with
    | error e => rfl
    | ok fields =>
      have hbare : (Descriptor.mk next.1 fields false false).bare =
          ⟨next.1, fields.map ResolvedField.bare, false, false⟩ := Descriptor.bare_eq _
      simp only [Except.map, List.map_cons, List.map_nil, ResolvedField.bare, leaf,
        FieldSpec.alias?, Option.map_some, hbare]

/-! ## Spelling out changes nothing else -/

/-- The plain requests for fields with names of their own give these fields. -/
theorem bareSpecs_plain (hr : r.Regular) (hm : r.find? m.name = some m)
    (hstar : ∀ f ∈ m.fields, f.name ≠ "*") {fields : List FieldSchema}
    (hfields : ∀ f ∈ fields, f ∈ m.fields) :
    r.bareSpecs maxDepth path m (fields.map fun f => .plain f.name) =
      .ok (fields.map fun source => (leaf .all source).bare) := by
  induction fields with
  | nil => rfl
  | cons f fields ih =>
    obtain ⟨hf, hfields⟩ := List.forall_mem_cons.1 hfields
    have hhere : r.bareSpecs maxDepth path m [.plain f.name] = .ok [(leaf .all f).bare] := by
      rw [bareSpecs, resolveSpecs_singleton, FieldSpec.plain, dif_neg (hstar f hf),
        resolveSpec_named (hr.field_eq hm hf), resolveAt_of_no_list (by simp [FieldSpec.nested])]
      rfl
    rw [List.map_cons, ← List.singleton_append, bareSpecs_append, hhere, ih hfields]
    rfl

/-- A wildcard that is spelled out gives the same fields, on every path. -/
theorem bareSpecs_eq_of_spellsOut (hr : r.Regular)
    (hstar : ∀ m ∈ r.models, ∀ f ∈ m.fields, f.name ≠ "*") {specs specs' : List FieldSpec}
    (hm : r.find? m.name = some m) (h : r.SpellsOut m specs specs') :
    ∀ path, r.bareSpecs maxDepth path m specs = r.bareSpecs maxDepth path m specs' := by
  induction h with
  | @here m before after label nested hempty hfields =>
    intro path
    rw [← List.singleton_append, List.append_assoc before]
    apply bareSpecs_congr
    rw [bareSpecs_wildcard hempty]
    exact (bareSpecs_plain hr hm (hstar m (mem_models_of_find? hm)) fun _ => id).symm
  | @inside m target before after specs specs' name key h source targetName hsource htarget hmodel
      hspecs ih =>
    intro path
    rw [← List.singleton_append, ← List.singleton_append (l := after)]
    apply bareSpecs_congr
    have hfield := (field_eq_ok_iff hm).2 hsource
    rw [bareSpecs_named hfield hspecs.ne_nil.1, bareSpecs_named hfield hspecs.ne_nil.2]
    have hlone := hspecs.lone (hstar target (mem_models_of_find? hmodel))
    -- a wildcard on its own would be made a plain one there, which makes no difference to this one
    have hlevel (path : List String) :
        (r.fieldsAt maxDepth path targetName (innerRequests specs)).map
          (List.map ResolvedField.bare) =
        (r.fieldsAt maxDepth path targetName (innerRequests specs')).map
          (List.map ResolvedField.bare) := by
      rw [map_bare_fieldsAt, map_bare_fieldsAt, model_eq_ok_iff.2 hmodel]
      change (r.bareSpecs _ _ _ _).map _ = (r.bareSpecs _ _ _ _).map _
      rw [bareSpecs_innerRequests fun label nested => (hlone label nested).1,
        bareSpecs_innerRequests fun label nested h => absurd h (hlone label nested).2,
        ih (find?_name hmodel)]
    cases hnext : descend maxDepth path m.name source with
    | error e => rfl
    | ok next =>
      obtain rfl : targetName = next.1 :=
        Option.some.inj (htarget.symm.trans (descend_eq_ok_iff.1 hnext).1)
      exact congrArg (Except.map _) (hlevel next.2)

end Bare

/-- A shape with a wildcard that is spelled out is resolved alike but for the requests. -/
theorem map_bare_resolve_of_spellsOut {r : Registry} (hr : r.Regular)
    (hstar : ∀ m ∈ r.models, ∀ f ∈ m.fields, f.name ≠ "*") {base : String} {m : Model}
    (hbase : r.find? base = some m) {specs specs' : List FieldSpec}
    (h : r.SpellsOut m specs specs') (maxDepth : Nat) (isFlat isFlatLists : Bool) :
    (r.resolve maxDepth base ⟨specs, isFlat, isFlatLists⟩).map Descriptor.bare =
      (r.resolve maxDepth base ⟨specs', isFlat, isFlatLists⟩).map Descriptor.bare := by
  have hlevel (specs : List FieldSpec) :
      (r.resolve maxDepth base ⟨specs, isFlat, isFlatLists⟩).map Descriptor.bare =
        ((r.fieldsAt maxDepth [base] base specs).map (List.map ResolvedField.bare)).map
          fun fields => ⟨base, fields, isFlat, isFlatLists⟩ := by
    rw [resolve_eq_fieldsAt]
    cases r.fieldsAt maxDepth [base] base specs with
    | error e => rfl
    | ok fields => exact congrArg Except.ok (Descriptor.bare_eq _)
  have hsame : r.bareSpecs maxDepth [base] m specs = r.bareSpecs maxDepth [base] m specs' :=
    bareSpecs_eq_of_spellsOut hr hstar (find?_name hbase) h [base]
  rw [hlevel, hlevel, map_bare_fieldsAt, map_bare_fieldsAt, model_eq_ok_iff.2 hbase]
  exact congrArg (fun fields => Except.map _ (Except.map mergeByKey fields)) hsame

end Registry

namespace Engine

/-- A plain wildcard means the names of all fields, in the order of their declaration. Where no
field is named `*`, a wildcard on a record type that has fields may be spelled out, whatever stands
around it and was asked before: the shape is resolved alike, to descriptors that differ in requests
only or else with the same error, and every payload gives the same record or list of records, or
fails in the same way. -/
theorem wildcard_means_all_fields {e : Engine} (hr : e.registry.Loaded)
    (hstar : ∀ m ∈ e.registry.models, ∀ f ∈ m.fields, f.name ≠ "*") {base : String} {m : Model}
    (hbase : e.registry.find? base = some m) {specs specs' : List FieldSpec}
    (h : e.registry.SpellsOut m specs specs') (isFlat isFlatLists : Bool)
    (before before' : List Request) :
    (e.descriptorAfter before base ⟨specs, isFlat, isFlatLists⟩).map Descriptor.bare =
      (e.descriptorAfter before' base ⟨specs', isFlat, isFlatLists⟩).map Descriptor.bare ∧
    (∀ flat flatLists raw,
      (e.one (e.memoryAfter e.freshMemory before) base (.shape ⟨specs, isFlat, isFlatLists⟩) flat
        flatLists raw).result =
      (e.one (e.memoryAfter e.freshMemory before') base (.shape ⟨specs', isFlat, isFlatLists⟩) flat
        flatLists raw).result) ∧
    ∀ flat flatLists raw,
      (e.list (e.memoryAfter e.freshMemory before) base (.shape ⟨specs, isFlat, isFlatLists⟩) flat
        flatLists raw).result =
      (e.list (e.memoryAfter e.freshMemory before') base (.shape ⟨specs', isFlat, isFlatLists⟩) flat
        flatLists raw).result := by
  have hm := faithful_memoryAfter (faithful_freshMemory e) before
  have hm' := faithful_memoryAfter (faithful_freshMemory e) before'
  have hplain (isFlat isFlatLists : Bool) :
      (e.plainDescriptor base ⟨specs, isFlat, isFlatLists⟩).map Descriptor.bare =
        (e.plainDescriptor base ⟨specs', isFlat, isFlatLists⟩).map Descriptor.bare := by
    rw [plainDescriptor, plainDescriptor, ← exceptMapError_map, ← exceptMapError_map,
      Registry.map_bare_resolve_of_spellsOut hr.regular hstar hbase h]
  have hgiven (specs : List FieldSpec) (flat flatLists : Option Bool) :
      (plainShape (.shape ⟨specs, isFlat, isFlatLists⟩) flat flatLists).bind
        (e.plainDescriptor base) =
      e.plainDescriptor base ⟨specs, flat.getD isFlat, flatLists.getD isFlatLists⟩ := rfl
  refine ⟨?_, ?_, ?_⟩
  · rw [descriptorAfter_eq, descriptorAfter_eq, hplain]
  · intro flat flatLists raw
    rw [one_result hm (hgiven specs flat flatLists), one_result hm' (hgiven specs' flat flatLists)]
    refine exceptBind_congr_of_map (hplain (flat.getD isFlat) (flatLists.getD isFlatLists)) ?_
    intro d d' hbare
    rw [Descriptor.record_eq_of_bare hbare]
  · intro flat flatLists raw
    rw [list_result hm (hgiven specs flat flatLists),
      list_result hm' (hgiven specs' flat flatLists)]
    refine exceptBind_congr_of_map (hplain (flat.getD isFlat) (flatLists.getD isFlatLists)) ?_
    intro d d' hbare
    simp only [Descriptor.records, Descriptor.record_eq_of_bare hbare]

/-- The status of a grant, with all fields or with these by their names, once a wildcard has been
asked for. -/
theorem grant_wildcard_means_all_fields :
    Registry.builtin.SpellsOut Model.grant
      [.named "title" none none (by decide),
        .named "status" (some "phase") (some [.all]) (by decide)]
      [.named "title" none none (by decide), .named "status" (some "phase")
        (some [.named "code" none none (by decide), .named "description" none none (by decide)])
        (by decide)] ∧
    ((ofSettings Registry.builtin .default).one
      ((ofSettings Registry.builtin .default).memoryAfter
        (ofSettings Registry.builtin .default).freshMemory
        [.ask (.descriptor "Grant") (.text "*") none none])
      "Grant" (.shape ⟨[.named "title" none none (by decide), .named "status" (some "phase")
        (some [.named "code" none none (by decide), .named "description" none none (by decide)])
        (by decide)], false, false⟩) none none
      (.mapping [("title", .text "Soil"), ("status", .mapping [("description", .text "Open"),
        ("code", .text "O"), ("since", .int 2020)])])).result =
      .ok (.mapping [("title", .text "Soil"), ("phase", .mapping [("code", .text "O"),
        ("description", .text "Open")])]) := by
  have hspelled : Registry.builtin.SpellsOut Model.grant
      ([.named "title" none none (by decide)] ++
        .named "status" (some "phase") (some ([] ++ .all :: [])) (by decide) :: [])
      ([.named "title" none none (by decide)] ++ .named "status" (some "phase")
        (some ([] ++ Model.codeDescription.spelledOut ++ [])) (by decide) :: []) :=
    .inside rfl rfl rfl (.here (by simp) (by decide))
  refine ⟨hspelled, ?_⟩
  have hgrant : Registry.builtin.find? "Grant" = some Model.grant := rfl
  obtain ⟨-, hone, -⟩ := wildcard_means_all_fields (e := ofSettings Registry.builtin .default)
    .builtin (by decide +kernel) hgrant hspelled false false []
    [.ask (.descriptor "Grant") (.text "*") none none]
  have hsame := hone none none (.mapping [("title", .text "Soil"), ("status", .mapping
    [("description", .text "Open"), ("code", .text "O"), ("since", .int 2020)])])
  refine hsame.symm.trans ?_
  rw [one_result (faithful_memoryAfter (faithful_freshMemory _) []) rfl]
  rfl

end Engine
end RecordProjection
