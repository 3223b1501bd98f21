import RecordProjection.Proofs.Descriptor.Demands
import RecordProjection.Proofs.Schema.Declarations

/-!
# Resolution is exact

A shape is resolved when all its demands are met, and else the error is that of the first demand
that is not. What is demanded is what the levels of the shape ask for.
-/
namespace RecordProjection

namespace Demand

/-- A result is there when the demands are met, and otherwise it is the error of the first that is
not. -/
def Decides (maxDepth : Nat) (ds : List Demand) {α : Type} (x : Except SchemaError α) : Prop :=
  x.map (fun _ => ()) = checkAll maxDepth ds

variable {maxDepth : Nat} {α β : Type}

theorem decides_ok (a : α) : Decides maxDepth [] (.ok a) := rfl

theorem decides_error {d : Demand} {ds : List Demand} (hd : ¬ d.Met maxDepth) :
    Decides maxDepth (d :: ds) (.error (d.error maxDepth) : Except SchemaError α) := by
  rw [Decides, checkAll, if_neg hd]
  rfl

theorem Decides.cons {d : Demand} {ds : List Demand} {x : Except SchemaError α}
    (hd : d.Met maxDepth) (h : Decides maxDepth ds x) : Decides maxDepth (d :: ds) x := by
  rw [Decides, checkAll, if_pos hd]
  exact h

theorem Decides.bind {ds ds' : List Demand} {x : Except SchemaError α}
    {f : α → Except SchemaError β} (h : Decides maxDepth ds x)
    (hf : ∀ a, x = .ok a → Decides maxDepth ds' (f a)) :
    Decides maxDepth (ds ++ ds') (x >>= f) := by
  rw [Decides, checkAll_append, ← h]
  cases x with
  | error e => rfl
  | ok a => exact hf a rfl

theorem Decides.map {ds : List Demand} {x : Except SchemaError α} (h : Decides maxDepth ds x)
    (f : α → β) : Decides maxDepth ds (x.map f) := by
  rw [Decides, ← h]
  cases x <;> rfl

theorem decides_mapM {f : α → Except SchemaError β} {g : α → List Demand} {as : List α}
    (h : ∀ a ∈ as, Decides maxDepth (g a) (f a)) :
    Decides maxDepth (as.flatMap g) (as.mapM f) := by
  induction as with
  | nil => exact decides_ok []
  | cons a as ih =>
    rw [List.flatMap_cons, List.mapM_cons]
    refine (h a List.mem_cons_self).bind fun b _ => ?_
    exact (ih fun a ha => h a (List.mem_cons_of_mem _ ha)).map (b :: ·)

theorem Decides.ok_iff {ds : List Demand} {x : Except SchemaError α}
    (h : Decides maxDepth ds x) : (∃ a, x = .ok a) ↔ ∀ d ∈ ds, d.Met maxDepth := by
  rw [← checkAll_eq_ok_iff, ← h, exceptMap_eq_ok_iff]
  simp

theorem Decides.error_iff {ds : List Demand} {x : Except SchemaError α}
    (h : Decides maxDepth ds x) (e : SchemaError) : x = .error e ↔
      ∃ before d after, ds = before ++ d :: after ∧ (∀ b ∈ before, b.Met maxDepth) ∧
        ¬ d.Met maxDepth ∧ e = d.error maxDepth := by
  rw [← checkAll_eq_error_iff, ← h]
  cases x <;> simp [Except.map]

end Demand

namespace Registry

open Demand

variable {r : Registry} {maxDepth : Nat} {path : List String} {model : Model}

/-! ## The schemas -/

theorem mem_models_of_find? {name : String} {m : Model} (h : r.find? name = some m) :
    m ∈ r.models := List.mem_of_find?_eq_some h

theorem name_of_find? {name : String} {m : Model} (h : r.find? name = some m) : m.name = name := by
  simpa using List.find?_some h

theorem find?_name {name : String} {m : Model} (h : r.find? name = some m) :
    r.find? m.name = some m := by
  rw [name_of_find? h, h]

theorem model_eq_ok_iff {name : String} {m : Model} :
    r.model name = .ok m ↔ r.find? name = some m := by
  rw [Registry.model]
  cases r.find? name <;> simp

/-- The value of a field has a record type when the field names one, or its type is one. -/
theorem target?_isSome_iff {source : FieldSchema} :
    source.target?.isSome ↔ source.nestedModel ≠ none ∨ source.type ∉ primitiveTypes := by
  rw [FieldSchema.target?]
  cases hmodel : source.nestedModel with
  | some m => simp
  | none => simp [FieldSchema.isPrimitive]

/-- The record type of a field's value is there. -/
theorem exists_find?_of_target? {source : FieldSchema} {target : String}
    (hmodel : model ∈ r.models) (hsource : source ∈ model.fields)
    (h : source.target? = some target) : ∃ m, r.find? target = some m := by
  have href : target ∈ source.references := by
    rw [FieldSchema.target?] at h
    rw [FieldSchema.mem_references_iff]
    cases hnested : source.nestedModel with
    | some m =>
      rw [hnested] at h
      exact .inl h
    | none =>
      cases hprimitive : source.isPrimitive with
      | true => simp [hnested, hprimitive] at h
      | false =>
        obtain rfl : source.type = target := by simpa [hnested, hprimitive] using h
        exact .inr ⟨rfl, by simpa [FieldSchema.isPrimitive] using hprimitive⟩
  have hclosed := danglingReference?_eq_none_iff.1 r.closed model hmodel source hsource target href
  obtain ⟨m, hm, rfl⟩ := List.mem_map.1 hclosed
  rw [← Option.isSome_iff_exists, find?, List.find?_isSome]
  exact ⟨m, hm, beq_self_eq_true m.name⟩

/-! ## One request -/

theorem field?_isSome_iff {name : String} :
    (model.field? name).isSome ↔ ∃ f ∈ model.fields, f.name = name := by
  rw [Model.field?, List.find?_isSome]
  simp

theorem mem_fields_of_field? {name : String} {source : FieldSchema}
    (h : model.field? name = some source) : source ∈ model.fields :=
  List.mem_of_find?_eq_some h

/-- A named request demands its field. -/
theorem decides_field (h : r.find? model.name = some model) (name : String) :
    Decides maxDepth [.field model name] (r.field model.name name) := by
  have hmet : (Demand.field model name).Met maxDepth ↔ (model.field? name).isSome :=
    field?_isSome_iff.symm
  simp only [field, Registry.model, h]
  cases hfield : model.field? name with
  | none => exact decides_error (by simp [hmet, hfield])
  | some f => exact Decides.cons (by simp [hmet, hfield]) (decides_ok f)

theorem field_eq_ok_iff (h : r.find? model.name = some model) {name : String}
    {source : FieldSchema} : r.field model.name name = .ok source ↔
      model.field? name = some source := by
  simp only [field, Registry.model, h]
  cases model.field? name <;> simp

/-- Going on below a field demands a record type for its value and a path that is not too long. -/
theorem decides_descend (maxDepth : Nat) (path : List String) (model : Model)
    (source : FieldSchema) :
    Decides maxDepth (.target model.name source ::
      source.target?.toList.map fun target => .depth (path ++ [target]))
      (descend maxDepth path model.name source) := by
  have hmet : (Demand.target model.name source).Met maxDepth ↔ source.target?.isSome :=
    target?_isSome_iff.symm
  rw [descend]
  cases htarget : source.target? with
  | none => exact decides_error (by simp [hmet, htarget])
  | some target =>
    refine Decides.cons (by simp [hmet, htarget]) ?_
    have hdepth : (Demand.depth (path ++ [target])).Met maxDepth ↔
        ¬ maxDepth < (path ++ [target]).length := by rw [Demand.Met, Nat.not_lt]
    by_cases hlong : maxDepth < (path ++ [target]).length
    · simp only [if_pos hlong]
      exact decides_error (by simpa [hdepth] using hlong)
    · simp only [if_neg hlong]
      exact Decides.cons (hdepth.2 hlong) (decides_ok _)

/-- The way below a field leads to the record type of its value, if there is room for it. -/
theorem descend_eq_ok_iff {source : FieldSchema} {target : String} {below : List String} :
    descend maxDepth path model.name source = .ok (target, below) ↔
      source.target? = some target ∧ path.length < maxDepth ∧ below = path ++ [target] := by
  rw [descend]
  cases source.target? with
  | none => simp
  | some target' =>
    have hlength : (path ++ [target']).length = path.length + 1 := by simp
    by_cases hroom : path.length < maxDepth
    · have hshort : ¬ maxDepth < (path ++ [target']).length := by omega
      simp only [if_neg hshort, hroom, Except.ok.injEq, Prod.mk.injEq, Option.some.injEq, true_and]
      constructor
      · rintro ⟨rfl, rfl⟩
        exact ⟨rfl, rfl⟩
      · rintro ⟨rfl, rfl⟩
        exact ⟨rfl, rfl⟩
    · have hlong : maxDepth < (path ++ [target']).length := by omega
      simp only [if_pos hlong, hroom, reduceCtorEq, false_and, and_false]

/-- The requests of a list, on the record type of a value. -/
theorem decides_innerFields {target : String} {m : Model} {specs : List FieldSpec}
    {innerDemands : List String → Model → List Demand}
    {inner : Model → Except SchemaError (List ResolvedField)} (hm : r.find? target = some m)
    (hinner : Decides maxDepth (innerDemands path m) (inner m)) :
    Decides maxDepth (r.demandsThere path target specs innerDemands)
      (r.innerFields target specs inner) := by
  have hmodel : r.model target = .ok m := model_eq_ok_iff.2 hm
  by_cases hlone : ∃ label nested, specs = [.wildcard label nested]
  · obtain ⟨label, nested, rfl⟩ := hlone
    rw [innerFields, allFields, hmodel]
    exact decides_ok _
  · have hne (label : String) (nested : Option (List FieldSpec)) :
        specs ≠ [.wildcard label nested] := fun h => hlone ⟨label, nested, h⟩
    rw [demandsThere.eq_2 _ _ _ _ _ hne, innerFields.eq_2 _ _ _ _ hne, hmodel, hm]
    rw [Option.toList_some, List.flatMap_singleton, ← List.append_nil (innerDemands path m)]
    exact hinner.bind fun fields _ => decides_ok (mergeByKey fields)

/-- A request at one of its fields demands what its list does there. -/
theorem decides_resolveAt {spec : FieldSpec} {source : FieldSchema}
    {innerDemands : List String → Model → List Demand}
    {inner : List String → Model → Except SchemaError (List ResolvedField)}
    (hmodel : model ∈ r.models) (hsource : source ∈ model.fields)
    (hinner : ∀ path m, r.find? m.name = some m →
      Decides maxDepth (innerDemands path m) (inner path m)) :
    Decides maxDepth (r.demandsBelow path model spec.nested innerDemands source)
      (r.resolveAt maxDepth path model spec inner source) := by
  rw [resolveAt.eq_def]
  split
  · next hnone => 
    rw [hnone]
    exact decides_ok _
  · next hnil => 
    rw [hnil]
    exact decides_ok _
  · next specs hne hspecs =>
    rw [hspecs, demandsBelow_of_ne_nil hne]
    have hdescend := decides_descend maxDepth path model source
    cases htarget : source.target? with
    | none =>
      rw [htarget] at hdescend
      rw [Option.toList_none, List.flatMap_nil, ← List.append_nil [_]]
      refine hdescend.bind fun next hnext => ?_
      simp [(descend_eq_ok_iff.1 hnext).1] at htarget
    | some target =>
      obtain ⟨m, hm⟩ := exists_find?_of_target? hmodel hsource htarget
      rw [htarget] at hdescend
      rw [Option.toList_some, List.flatMap_singleton]
      change Decides maxDepth ([.target model.name source, .depth (path ++ [target])] ++
        r.demandsThere (path ++ [target]) target specs innerDemands) _
      refine hdescend.bind fun next hnext => ?_
      obtain ⟨hnextTarget, -, hnextPath⟩ := descend_eq_ok_iff.1 hnext
      obtain rfl : target = next.1 := Option.some.inj (htarget.symm.trans hnextTarget)
      rw [← hnextPath, ← List.append_nil (r.demandsThere _ _ _ _)]
      exact (decides_innerFields hm (hinner _ m (find?_name hm))).bind fun fields _ => decides_ok _

/-! ## Requests -/

theorem decides_resolveSpecs_of_forall {specs : List FieldSpec}
    (h : ∀ spec ∈ specs,
      Decides maxDepth (r.demandsOf path model spec) (r.resolveSpec maxDepth path model spec)) :
    Decides maxDepth (r.demands path model specs) (r.resolveSpecs maxDepth path model specs) := by
  induction specs with
  | nil => exact decides_ok _
  | cons spec specs ih =>
    rw [demands, resolveSpecs]
    refine (h spec List.mem_cons_self).bind fun fields _ => ?_
    rw [← List.append_nil (r.demands path model specs)]
    exact (ih fun spec hspec => h spec (List.mem_cons_of_mem _ hspec)).bind fun _ _ => decides_ok _

/-- A request demands its field, and what its list does at each of the fields it stands for. -/
theorem decides_resolveSpec (spec : FieldSpec) : ∀ (path : List String) (model : Model),
    r.find? model.name = some model →
      Decides maxDepth (r.demandsOf path model spec) (r.resolveSpec maxDepth path model spec) := by
  induction spec using FieldSpec.induction with
  | step spec ih =>
    intro path model hmodel
    have hmem := mem_models_of_find? hmodel
    have hinner (path : List String) (m : Model) (hm : r.find? m.name = some m) :
        Decides maxDepth (r.demandsInside path m spec.nested)
          (r.resolveInner maxDepth path m spec.nested) := by
      cases hspecs : spec.nested with
      | none => exact decides_ok _
      | some specs =>
        exact decides_resolveSpecs_of_forall fun g hg => ih specs hspecs g hg path m hm
    cases spec with
    | wildcard label nested =>
      rw [demandsOf, resolveSpec, sources, ← List.nil_append (List.flatMap _ _)]
      refine (decides_ok model.fields).bind fun found hfound => ?_
      obtain rfl := Except.ok.inj hfound
      exact decides_mapM fun source hsource => decides_resolveAt hmem hsource hinner
    | named name key nested h =>
      rw [demandsOf, resolveSpec, sources, ← List.singleton_append]
      refine ((decides_field hmodel name).map _).bind fun found hfound => ?_
      obtain ⟨source, hsource, rfl⟩ := exceptMap_eq_ok_iff.1 hfound
      rw [field_eq_ok_iff hmodel] at hsource
      rw [hsource, Option.toList_some]
      refine decides_mapM fun source' hsource' => decides_resolveAt hmem ?_ hinner
      obtain rfl := List.mem_singleton.1 hsource'
      exact mem_fields_of_field? hsource

theorem decides_resolveSpecs (hmodel : r.find? model.name = some model) (specs : List FieldSpec) :
    Decides maxDepth (r.demands path model specs) (r.resolveSpecs maxDepth path model specs) :=
  decides_resolveSpecs_of_forall fun spec _ => decides_resolveSpec spec path model hmodel

/-- A shape on a record type that is there is resolved as its demands decide. -/
theorem decides_resolve {base : String} (hbase : r.find? base = some model) (shape : Shape) :
    Decides maxDepth (r.demands [base] model shape.fields) (r.resolve maxDepth base shape) := by
  rw [resolve, Registry.model, hbase, ← List.append_nil (r.demands _ _ _)]
  exact (decides_resolveSpecs (find?_name hbase) shape.fields).bind fun _ _ => decides_ok _

theorem resolve_eq_error_of_find?_eq_none {base : String} (hbase : r.find? base = none)
    (shape : Shape) : r.resolve maxDepth base shape = .error (.unknownModel base) := by
  rw [resolve, Registry.model, hbase]
  rfl

/-! ## Levels -/

theorem mem_demands_iff {specs : List FieldSpec} {d : Demand} :
    d ∈ r.demands path model specs ↔ ∃ spec ∈ specs, d ∈ r.demandsOf path model spec := by
  induction specs with
  | nil => simp [demands]
  | cons spec specs ih => simp [demands, ih]

theorem mem_demandsOf_iff {spec : FieldSpec} {d : Demand} :
    d ∈ r.demandsOf path model spec ↔
      (∃ name key nested h, spec = .named name key nested h ∧ d = .field model name) ∨
      ∃ source, StandsFor model spec source ∧ d ∈ r.demandsBelow path model spec.nested
        (fun path m => r.demandsInside path m spec.nested) source := by
  cases spec with
  | wildcard label nested => simp [demandsOf, StandsFor, FieldSpec.nested]
  | named name key nested h => simp [demandsOf, StandsFor, FieldSpec.nested, eq_comm, h]

theorem demandsThere_eq {target : String} {m : Model} (specs : List FieldSpec)
    (hm : r.find? target = some m) :
    r.demandsThere path target specs (fun path m => r.demandsInside path m (some specs)) =
      r.demands path m (innerRequests specs) := by
  by_cases hlone : ∃ label nested, specs = [.wildcard label nested]
  · obtain ⟨label, nested, rfl⟩ := hlone
    simp [demandsThere, innerRequests, demands, demandsOf, demandsBelow, FieldSpec.all]
  · have hne (label : String) (nested : Option (List FieldSpec)) :
        specs ≠ [.wildcard label nested] := fun h => hlone ⟨label, nested, h⟩
    rw [demandsThere.eq_2 _ _ _ _ _ hne, innerRequests.eq_2 _ hne, hm]
    simp [demandsInside]

theorem mem_demandsBelow_iff {specs : List FieldSpec} {source : FieldSchema} {d : Demand}
    (hmodel : model ∈ r.models) (hsource : source ∈ model.fields) (hne : specs ≠ []) :
    d ∈ r.demandsBelow path model (some specs)
        (fun path m => r.demandsInside path m (some specs)) source ↔
      d = .target model.name source ∨ ∃ target m, source.target? = some target ∧
        r.find? target = some m ∧ (d = .depth (path ++ [target]) ∨
          d ∈ r.demands (path ++ [target]) m (innerRequests specs)) := by
  rw [demandsBelow_of_ne_nil hne, List.mem_cons]
  cases htarget : source.target? with
  | none => simp
  | some target =>
    obtain ⟨m, hm⟩ := exists_find?_of_target? hmodel hsource htarget
    simp [demandsThere_eq specs hm, hm]

theorem mem_innerRequests {specs : List FieldSpec} {spec : FieldSpec}
    (h : spec ∈ innerRequests specs) : spec = .all ∨ spec ∈ specs := by
  rw [innerRequests.eq_def] at h
  split at h
  · exact .inl (List.mem_singleton.1 h)
  · exact .inr h

theorem StandsFor.mem_fields {spec : FieldSpec} {source : FieldSchema}
    (h : StandsFor model spec source) : source ∈ model.fields := by
  cases spec with
  | wildcard label nested => exact h
  | named name key nested hname => exact mem_fields_of_field? h

namespace Level
variable {path₀ : List String} {model₀ : Model} {specs₀ specs : List FieldSpec}

theorem find?_model (h : r.Level path₀ model₀ specs₀ path model specs)
    (hmodel : r.find? model₀.name = some model₀) : r.find? model.name = some model := by
  induction h with
  | here => exact hmodel
  | inside _ _ _ _ _ _ hm => exact find?_name hm

theorem trans {path₁ : List String} {model₁ : Model} {specs₁ : List FieldSpec}
    (h : r.Level path₀ model₀ specs₀ path₁ model₁ specs₁)
    (h' : r.Level path₁ model₁ specs₁ path model specs) :
    r.Level path₀ model₀ specs₀ path model specs := by
  induction h' with
  | here => exact h
  | inside _ hspec hsource hinner hne htarget hm ih =>
    exact ih.inside hspec hsource hinner hne htarget hm

/-- The demands of a level are met with those of the level it was come to from. -/
theorem met (h : r.Level path₀ model₀ specs₀ path model specs)
    (hmodel : r.find? model₀.name = some model₀) (hpath : path₀.length ≤ maxDepth)
    (hmet : ∀ d ∈ r.demands path₀ model₀ specs₀, d.Met maxDepth) :
    path.length ≤ maxDepth ∧ ∀ d ∈ r.demands path model specs, d.Met maxDepth := by
  induction h with
  | here => exact ⟨hpath, hmet⟩
  | @inside path model m specs inner spec source target h hspec hsource hinner hne htarget hm ih =>
    have hmem := mem_models_of_find? (h.find?_model hmodel)
    have hbelow (d : Demand) (hd : d = .depth (path ++ [target]) ∨
        d ∈ r.demands (path ++ [target]) m (innerRequests inner)) : d.Met maxDepth := by
      refine ih.2 d
        (mem_demands_iff.2 ⟨spec, hspec, mem_demandsOf_iff.2 (.inr ⟨source, hsource, ?_⟩)⟩)
      rw [hinner, mem_demandsBelow_iff hmem hsource.mem_fields hne]
      exact .inr ⟨target, m, htarget, hm, hd⟩
    exact ⟨hbelow _ (.inl rfl), fun d hd => hbelow d (.inr hd)⟩

end Level

/-- On a level whose demands are met, the requests can be met. -/
theorem resolvable_of_met {specs : List FieldSpec} (hmodel : r.find? model.name = some model)
    (hpath : path.length ≤ maxDepth) (hmet : ∀ d ∈ r.demands path model specs, d.Met maxDepth) :
    Resolvable maxDepth path model specs := by
  refine ⟨hpath, ?_, ?_⟩
  · intro name key nested h hspec
    exact hmet (.field model name)
      (mem_demands_iff.2 ⟨_, hspec, mem_demandsOf_iff.2 (.inl ⟨name, key, nested, h, rfl, rfl⟩)⟩)
  · intro spec hspec source inner hsource hinner hne
    refine hmet (.target model.name source)
      (mem_demands_iff.2 ⟨spec, hspec, mem_demandsOf_iff.2 (.inr ⟨source, hsource, ?_⟩)⟩)
    rw [hinner, mem_demandsBelow_iff (mem_models_of_find? hmodel) hsource.mem_fields hne]
    exact .inl rfl

/-- A request is met when the requests of all levels can be met. -/
theorem met_of_resolvable (spec : FieldSpec) : ∀ (path : List String) (model : Model)
    (specs : List FieldSpec), spec ∈ specs → r.find? model.name = some model →
    (∀ path' model' specs', r.Level path model specs path' model' specs' →
      Resolvable maxDepth path' model' specs') →
    ∀ d ∈ r.demandsOf path model spec, d.Met maxDepth := by
  induction spec using FieldSpec.induction with
  | step spec ih =>
    intro path model specs hspec hmodel hlevels d hd
    have hhere := hlevels path model specs .here
    rcases mem_demandsOf_iff.1 hd with ⟨name, key, nested, h, rfl, rfl⟩ | ⟨source, hsource, hd⟩
    · exact hhere.fields name key nested h hspec
    cases hinner : spec.nested with
    | none => simp [hinner, demandsBelow] at hd
    | some inner =>
      by_cases hne : inner = []
      · simp [hinner, hne, demandsBelow] at hd
      rw [hinner, mem_demandsBelow_iff (mem_models_of_find? hmodel) hsource.mem_fields hne] at hd
      rcases hd with rfl | ⟨target, m, htarget, hm, hd⟩
      · exact hhere.targets spec hspec source inner hsource hinner hne
      have hlevel : r.Level path model specs (path ++ [target]) m (innerRequests inner) :=
        Level.here.inside hspec hsource hinner hne htarget hm
      rcases hd with rfl | hd
      · exact (hlevels _ _ _ hlevel).depth
      obtain ⟨g, hg, hd⟩ := mem_demands_iff.1 hd
      rcases mem_innerRequests hg with rfl | hg'
      · simp [FieldSpec.all, demandsOf, demandsBelow] at hd
      · exact ih inner hinner g hg' _ m _ hg (find?_name hm)
          (fun path' model' specs' h => hlevels path' model' specs' (hlevel.trans h)) d hd

/-- The demands of requests are met just when the requests of all levels can be met. -/
theorem forall_met_iff_forall_resolvable {specs : List FieldSpec}
    (hmodel : r.find? model.name = some model) (hpath : path.length ≤ maxDepth) :
    (∀ d ∈ r.demands path model specs, d.Met maxDepth) ↔
      ∀ path' model' specs', r.Level path model specs path' model' specs' →
        Resolvable maxDepth path' model' specs' := by
  constructor
  · intro hmet path' model' specs' h
    obtain ⟨hpath', hmet'⟩ := h.met hmodel hpath hmet
    exact resolvable_of_met (h.find?_model hmodel) hpath' hmet'
  · intro hlevels d hd
    obtain ⟨spec, hspec, hd⟩ := mem_demands_iff.1 hd
    exact met_of_resolvable spec path model specs hspec hmodel hlevels d hd

/-! ## The whole shape -/

/-- A shape is resolved just when its record type is there and the requests of all its levels can
be met. Otherwise the error is that the record type is unknown, or that of the first demand in the
order of the visit that is not met. -/
theorem resolve_exact (r : Registry) (maxDepth : Declaration.Positive) (base : String)
    (shape : Shape) :
    ((∃ d, r.resolve maxDepth.1 base shape = .ok d) ↔
      ∃ m, r.find? base = some m ∧ ∀ path model specs,
        r.Level [base] m shape.fields path model specs →
          Resolvable maxDepth.1 path model specs) ∧
    (∀ e, r.resolve maxDepth.1 base shape = .error e ↔
      (r.find? base = none ∧ e = .unknownModel base) ∨
      ∃ m before d after, r.find? base = some m ∧
        r.demands [base] m shape.fields = before ++ d :: after ∧
        (∀ b ∈ before, b.Met maxDepth.1) ∧ ¬ d.Met maxDepth.1 ∧ e = d.error maxDepth.1) ∧
    (∀ e, r.resolve maxDepth.1 base shape = .error e →
      (e.code = "UNKNOWN_MODEL" ↔ r.find? base = none)) ∧
    ∀ d : Demand, (d.error maxDepth.1).code = d.code := by
  have herror (e : SchemaError) : r.resolve maxDepth.1 base shape = .error e ↔
      (r.find? base = none ∧ e = .unknownModel base) ∨
      ∃ m before d after, r.find? base = some m ∧
        r.demands [base] m shape.fields = before ++ d :: after ∧
        (∀ b ∈ before, b.Met maxDepth.1) ∧ ¬ d.Met maxDepth.1 ∧ e = d.error maxDepth.1 := by
    cases hbase : r.find? base with
    | none => simp [resolve_eq_error_of_find?_eq_none hbase, eq_comm]
    | some m => simp [(decides_resolve hbase shape).error_iff]
  refine ⟨?_, herror, ?_, Demand.code_error maxDepth.1⟩
  · cases hbase : r.find? base with
    | none => simp [resolve_eq_error_of_find?_eq_none hbase]
    | some m =>
      have hmodel := find?_name hbase
      rw [(decides_resolve hbase shape).ok_iff,
        forall_met_iff_forall_resolvable hmodel (by simpa using maxDepth.2)]
      simp
  · intro e he
    rcases (herror e).1 he with ⟨hbase, rfl⟩ | ⟨m, -, d, -, hbase, -, -, -, rfl⟩
    · simp [hbase, SchemaError.code]
    · rw [Demand.code_error, hbase]
      cases d <;> simp [Demand.code]

end Registry
end RecordProjection
