import Mathlib.Data.List.Chain
import RecordProjection.Proofs.Descriptor.Building
import RecordProjection.Proofs.Descriptor.Depth
import RecordProjection.Proofs.Engine.Transparency
import RecordProjection.Schema.Builtin

/-!
# What the limit on depth adds

A limit on depth has one error of its own, and with a higher limit everything else stays as it was.
The path that the error reports is one step longer than the limit, each step leads to the value of a
field, and there are no more steps than lists in parentheses that stand in one another, whatever the
schemas refer to.

## Main definitions

* `FieldSpec.height` : the number of lists that stand in one another behind a request.
* `Registry.Leads` : a path of record types from one to another, along fields.
* `Registry.OverrunsBy` : what is said of a result that is an overrun of the limit.
* `ExceedsDepth` : a descriptor is not given because of the limit.
-/
namespace RecordProjection

namespace FieldSpec

mutual

/-- The number of lists in parentheses that stand in one another behind a request. -/
def height : FieldSpec → Nat
  | wildcard _ none => 0
  | wildcard _ (some specs) => listHeight specs + 1
  | named _ _ none _ => 0
  | named _ _ (some specs) _ => listHeight specs + 1

/-- The number of lists in parentheses that stand in one another behind any of the requests. -/
def listHeight : List FieldSpec → Nat
  | [] => 0
  | spec :: specs => max spec.height (listHeight specs)

end

theorem height_eq_of_nested {spec : FieldSpec} {specs : List FieldSpec}
    (h : spec.nested = some specs) : spec.height = listHeight specs + 1 := by
  cases spec with
  | wildcard label nested =>
    obtain rfl : nested = some specs := h
    rw [height]
  | named name key nested hname =>
    obtain rfl : nested = some specs := h
    rw [height]

theorem height_le_listHeight {specs : List FieldSpec} {spec : FieldSpec} (h : spec ∈ specs) :
    spec.height ≤ listHeight specs := by
  induction specs with
  | nil => exact absurd h List.not_mem_nil
  | cons first specs ih =>
    rw [listHeight]
    rcases List.mem_cons.1 h with rfl | h
    · exact Nat.le_max_left _ _
    · exact (ih h).trans (Nat.le_max_right _ _)

end FieldSpec

namespace Registry

/-! ## Paths -/

/-- A record type has a field whose value has another one. -/
def Nests (r : Registry) (model target : String) : Prop :=
  ∃ m source, r.find? model = some m ∧ source ∈ m.fields ∧ source.target? = some target

/-- A path of record types leads from one to another, along fields. -/
structure Leads (r : Registry) (base model : String) (path : List String) : Prop where
  head?_eq : path.head? = some base
  getLast?_eq : path.getLast? = some model
  chain : path.IsChain r.Nests

section Paths
variable {r : Registry} {base model target : String} {path : List String}

theorem leads_singleton (r : Registry) (base : String) : r.Leads base base [base] :=
  ⟨rfl, rfl, .singleton base⟩

theorem Leads.step (h : r.Leads base model path) (hnests : r.Nests model target) :
    r.Leads base target (path ++ [target]) := by
  refine ⟨?_, List.getLast?_concat, ?_⟩
  · rw [List.head?_append, h.head?_eq, Option.some_or]
  · refine h.chain.append (.singleton target) ?_
    intro last hlast first hfirst
    obtain rfl : model = last := Option.some.inj (h.getLast?_eq.symm.trans hlast)
    obtain rfl : target = first := Option.some.inj hfirst
    exact hnests

end Paths

/-! ## Overruns -/

/-- If a result is that a path is too long, then this is the limit, and the path has one record type
more than it allows, but no more than there is room for, and leads away from the base. -/
def OverrunsBy (r : Registry) (maxDepth : Nat) (base : String) (room : Nat) {α : Type}
    (x : Except SchemaError α) : Prop :=
  ∀ limit path, x = .error (.tooDeep limit path) →
    limit = maxDepth ∧ path.length = maxDepth + 1 ∧ path.length ≤ room ∧
      ∃ target, r.Leads base target path

namespace OverrunsBy
variable {r : Registry} {maxDepth room room' : Nat} {base : String} {α β : Type}

theorem of_ok (a : α) : r.OverrunsBy maxDepth base room (.ok a : Except SchemaError α) := by
  intro limit path h
  cases h

theorem mono {x : Except SchemaError α} (h : r.OverrunsBy maxDepth base room x)
    (hroom : room ≤ room') : r.OverrunsBy maxDepth base room' x := by
  intro limit path hx
  obtain ⟨hlimit, hlength, hwithin, hleads⟩ := h limit path hx
  exact ⟨hlimit, hlength, hwithin.trans hroom, hleads⟩

theorem bind {x : Except SchemaError α} {f : α → Except SchemaError β}
    (h : r.OverrunsBy maxDepth base room x)
    (hnext : ∀ a, x = .ok a → r.OverrunsBy maxDepth base room (f a)) :
    r.OverrunsBy maxDepth base room (x >>= f) := by
  intro limit path hx
  rcases exceptBind_eq_error_iff.1 hx with hx | ⟨a, ha, hx⟩
  · exact h limit path hx
  · exact hnext a ha limit path hx

theorem map {x : Except SchemaError α} (h : r.OverrunsBy maxDepth base room x) (f : α → β) :
    r.OverrunsBy maxDepth base room (x.map f) := by
  intro limit path hx
  exact h limit path (exceptMap_eq_error_iff.1 hx)

theorem mapM {f : α → Except SchemaError β} {as : List α}
    (h : ∀ a ∈ as, r.OverrunsBy maxDepth base room (f a)) :
    r.OverrunsBy maxDepth base room (as.mapM f) := by
  intro limit path hx
  obtain ⟨a, ha, hf⟩ := exists_of_mapM_eq_error hx
  exact h a ha limit path hf

end OverrunsBy

section Overruns
variable {r : Registry} {maxDepth room : Nat} {base : String} {path : List String} {model : Model}

theorem overrunsBy_model (name : String) : r.OverrunsBy maxDepth base room (r.model name) := by
  intro limit path h
  rw [Registry.model] at h
  split at h <;> simp at h

theorem overrunsBy_sources (hmodel : r.find? model.name = some model) (spec : FieldSpec) :
    r.OverrunsBy maxDepth base room (r.sources model spec) := by
  cases spec with
  | wildcard label nested => exact .of_ok _
  | named name key nested h =>
    refine .map ?_ _
    intro limit path h
    simp only [field, Registry.model, hmodel] at h
    split at h <;> simp at h

/-- The way below a field overruns by a single step. -/
theorem overrunsBy_descend (hmodel : r.find? model.name = some model)
    (hpath : r.Leads base model.name path) (hlength : path.length ≤ maxDepth)
    {source : FieldSchema} (hsource : source ∈ model.fields) :
    r.OverrunsBy maxDepth base (path.length + 1) (descend maxDepth path model.name source) := by
  intro limit long h
  rw [descend] at h
  cases htarget : source.target? with
  | none => simp [htarget] at h
  | some target =>
    have hlong : (path ++ [target]).length = path.length + 1 := by simp
    rw [htarget] at h
    simp only at h
    split at h
    · obtain ⟨rfl, rfl⟩ := SchemaError.tooDeep.inj (Except.error.inj h)
      refine ⟨rfl, by omega, hlong.le, target, hpath.step ?_⟩
      exact ⟨model, source, hmodel, hsource, htarget⟩
    · simp at h

theorem overrunsBy_resolveSpecs_of_forall {specs : List FieldSpec}
    (h : ∀ spec ∈ specs,
      r.OverrunsBy maxDepth base room (r.resolveSpec maxDepth path model spec)) :
    r.OverrunsBy maxDepth base room (r.resolveSpecs maxDepth path model specs) := by
  induction specs with
  | nil => exact .of_ok _
  | cons spec specs ih =>
    obtain ⟨hhere, hrest⟩ := List.forall_mem_cons.1 h
    rw [resolveSpecs]
    exact hhere.bind fun fields _ => (ih hrest).bind fun more _ => .of_ok _

theorem overrunsBy_fieldsAt_of_forall {target : String} {specs : List FieldSpec}
    (h : ∀ m, r.find? target = some m → ∀ spec ∈ specs,
      r.OverrunsBy maxDepth base room (r.resolveSpec maxDepth path m spec)) :
    r.OverrunsBy maxDepth base room (r.fieldsAt maxDepth path target specs) := by
  rw [fieldsAt]
  refine (overrunsBy_model target).bind fun m hm => ?_
  refine (overrunsBy_resolveSpecs_of_forall ?_).bind fun fields _ => .of_ok _
  exact h m (model_eq_ok_iff.1 hm)

/-- A request overruns by no more steps than lists stand in one another behind it. -/
theorem overrunsBy_resolveSpec (spec : FieldSpec) : ∀ (path : List String) (model : Model),
    r.find? model.name = some model → r.Leads base model.name path → path.length ≤ maxDepth →
      r.OverrunsBy maxDepth base (path.length + spec.height)
        (r.resolveSpec maxDepth path model spec) := by
  induction spec using FieldSpec.induction with
  | step spec ih =>
    intro path model hmodel hpath hlength
    rw [resolveSpec_eq]
    refine (overrunsBy_sources hmodel spec).bind fun sources hsources => ?_
    obtain ⟨-, rfl⟩ := (sources_eq_ok_iff hmodel).1 hsources
    refine .mapM fun source hsource => ?_
    have hdeclared := Model.mem_fields_of_askedBy hsource
    -- the limit has no part in a request without a list
    rcases plain_or_list spec with hplain | ⟨specs, hspecs, hne⟩
    · rw [resolveAt_of_no_list hplain]
      exact .of_ok _
    have hheight := FieldSpec.height_eq_of_nested hspecs
    rw [resolveAt_of_list hspecs hne, hspecs]
    simp only [innerFields_eq_fieldsAt]
    refine ((overrunsBy_descend hmodel hpath hlength hdeclared).mono (by omega)).bind ?_
    rintro ⟨target, below⟩ hnext
    obtain ⟨htarget, hroom, rfl⟩ := descend_eq_ok_iff.1 hnext
    -- one step down, the path has one record type more and the list behind the field one level less
    have hbelow : (path ++ [target]).length = path.length + 1 := by simp
    refine (overrunsBy_fieldsAt_of_forall ?_).bind fun fields _ => .of_ok _
    intro m hm inner hinner
    obtain rfl := name_of_find? hm
    rcases mem_innerRequests hinner with rfl | hinner
    · rw [FieldSpec.all, resolveSpec_wildcard (by simp)]
      exact .of_ok _
    · have hleads := hpath.step ⟨model, source, hmodel, hdeclared, htarget⟩
      have hinnerHeight := FieldSpec.height_le_listHeight hinner
      exact (ih specs hspecs inner hinner _ m hm hleads (by omega)).mono (by omega)

/-- A shape overruns by no more steps than lists stand in one another in it. -/
theorem overrunsBy_resolve (hpositive : 1 ≤ maxDepth) (base : String) (shape : Shape) :
    r.OverrunsBy maxDepth base (FieldSpec.listHeight shape.fields + 1)
      (r.resolve maxDepth base shape) := by
  rw [resolve_eq_fieldsAt]
  refine .map (overrunsBy_fieldsAt_of_forall ?_) _
  intro m hm spec hspec
  obtain rfl := name_of_find? hm
  have hheight := FieldSpec.height_le_listHeight hspec
  refine (overrunsBy_resolveSpec spec [m.name] m hm (leads_singleton r m.name) hpositive).mono ?_
  rw [List.length_singleton]
  omega

/-- With a higher limit a shape is resolved alike. -/
theorem unlessTooDeep_resolve {maxDepth' : Nat} (h : maxDepth ≤ maxDepth') (base : String)
    (shape : Shape) :
    UnlessTooDeep (r.resolve maxDepth base shape) (r.resolve maxDepth' base shape) := by
  rw [resolve, resolve]
  refine (UnlessTooDeep.refl _).bind fun m => ?_
  exact (unlessTooDeep_resolveSpecs (by omega) m shape.fields).bind fun fields => .refl _

end Overruns
end Registry

/-! ## Engines -/

/-- A descriptor is not given because of the limit on depth. -/
def ExceedsDepth (result : Except Failure Descriptor) : Prop :=
  ∃ e, result = .error (.schema e) ∧ e.code = "MAX_DEPTH_EXCEEDED"

namespace Engine

theorem exceedsDepth_iff {e : Engine} {before : List Request} {base : String} {shape : Shape} :
    ExceedsDepth (e.descriptorAfter before base shape) ↔
      ∃ limit path, e.registry.resolve e.maxDepth.1 base shape = .error (.tooDeep limit path) := by
  rw [ExceedsDepth, descriptorAfter_eq, plainDescriptor]
  simp only [exceptMapError_eq_error_iff, Failure.schema.injEq]
  constructor
  · rintro ⟨_, ⟨e, he, rfl⟩, hcode⟩
    cases e with
    | tooDeep limit path => exact ⟨limit, path, he⟩
    | _ => simp [SchemaError.code] at hcode
  · rintro ⟨limit, path, he⟩
    exact ⟨_, ⟨_, he, rfl⟩, rfl⟩

/-- A limit on depth has one error of its own and changes nothing else, whatever was asked before.
Unless this is the error, a higher limit gives the same descriptor or error. The path that it
reports begins at the base, has one record type more than the limit, and each next one is that of
the value of a field on the one before. And each shape has a limit from which on the error does not
occur, on any registry. -/
theorem depth_limit_adds_its_error_only (shape : Shape) :
    (∀ e e' : Engine, e.registry = e'.registry → e.maxDepth.1 ≤ e'.maxDepth.1 →
      ∀ before before' base, ¬ ExceedsDepth (e.descriptorAfter before base shape) →
        e'.descriptorAfter before' base shape = e.descriptorAfter before base shape) ∧
    (∀ (e : Engine) before base, ExceedsDepth (e.descriptorAfter before base shape) →
      ∃ path, e.descriptorAfter before base shape =
          .error (.schema (.tooDeep e.maxDepth.1 path)) ∧
        path.length = e.maxDepth.1 + 1 ∧ path.head? = some base ∧
        path.IsChain e.registry.Nests) ∧
    ∃ n, ∀ e : Engine, n ≤ e.maxDepth.1 →
      ∀ before base, ¬ ExceedsDepth (e.descriptorAfter before base shape) := by
  refine ⟨?_, ?_, FieldSpec.listHeight shape.fields + 1, ?_⟩
  · intro e e' hregistry hdepth before before' base hnot
    have hsame := Registry.unlessTooDeep_resolve (r := e.registry) hdepth base shape
    rw [descriptorAfter_eq, descriptorAfter_eq, plainDescriptor, plainDescriptor, ← hregistry,
      hsame fun limit path h => hnot (exceedsDepth_iff.2 ⟨limit, path, h⟩)]
  · intro e before base hexceeds
    obtain ⟨limit, path, hpath⟩ := exceedsDepth_iff.1 hexceeds
    obtain ⟨rfl, hlength, -, target, hleads⟩ :=
      Registry.overrunsBy_resolve e.maxDepth.2 base shape limit path hpath
    refine ⟨path, ?_, hlength, hleads.head?_eq, hleads.chain⟩
    rw [descriptorAfter_eq, plainDescriptor, hpath]
    rfl
  · intro e hn before base hexceeds
    obtain ⟨limit, path, hpath⟩ := exceedsDepth_iff.1 hexceeds
    obtain ⟨-, hlength, hroom, -⟩ :=
      Registry.overrunsBy_resolve e.maxDepth.2 base shape limit path hpath
    omega

end Engine

/-- Staff with managers, who are staff themselves. -/
def Registry.staff : Registry :=
  ⟨[⟨"Employee", [.mandatory "name" "str", .plain "manager" "Employee"]⟩], by decide +kernel⟩

/-- The manager of a manager is one step too many for a limit of two; with a limit of three there is
a descriptor, and it stays the same with a limit of forty. -/
theorem Engine.staff_depth_limit :
    let shape : Shape := ⟨[.named "manager" none
      (some [.named "manager" (some "head") (some [.all]) (by decide)]) (by decide)], false, false⟩
    let engine (limit : Declaration.Positive) : Engine :=
      { ofSettings Registry.staff .default with maxDepth := limit }
    (∃ path, (engine ⟨2, by decide⟩).descriptorAfter [] "Employee" shape =
        .error (.schema (.tooDeep 2 path)) ∧
      path.length = 3 ∧ path.head? = some "Employee" ∧ path.IsChain Registry.staff.Nests) ∧
    ∃ d, (engine ⟨3, by decide⟩).descriptorAfter [] "Employee" shape = .ok d ∧
      (engine ⟨40, by decide⟩).descriptorAfter [.forgetShapes] "Employee" shape = .ok d := by
  intro shape engine
  obtain ⟨hsame, hpath, -⟩ := depth_limit_adds_its_error_only shape
  constructor
  · refine hpath (engine ⟨2, by decide⟩) [] "Employee" (exceedsDepth_iff.2 ?_)
    exact ⟨2, ["Employee", "Employee", "Employee"], rfl⟩
  · obtain ⟨d, hd⟩ : ∃ d, Registry.staff.resolve 3 "Employee" shape = .ok d := ⟨_, rfl⟩
    have hgiven : (engine ⟨3, by decide⟩).descriptorAfter [] "Employee" shape = .ok d := by
      rw [descriptorAfter_eq]
      exact congrArg (Except.mapError Failure.schema) hd
    refine ⟨d, hgiven, ?_⟩
    have hnot : ¬ ExceedsDepth ((engine ⟨3, by decide⟩).descriptorAfter [] "Employee" shape) := by
      rintro ⟨e, he, -⟩
      cases hgiven.symm.trans he
    rw [← hgiven]
    exact hsame (engine ⟨3, by decide⟩) (engine ⟨40, by decide⟩) rfl (by decide) []
      [.forgetShapes] "Employee" hnot

end RecordProjection
