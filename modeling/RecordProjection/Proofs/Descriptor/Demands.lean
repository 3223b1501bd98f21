import RecordProjection.Descriptor.Resolution
import RecordProjection.Proofs.Shape.Payload

/-!
# What a shape demands of the schemas

A shape that is applied to a record type is visited from the outside in and from left to right,
and at each request it demands something of the schemas: that a field is there, that the value of
a field has a record type, that the path of record types is not too long. The list of all demands,
in the order of the visit, does not depend on which of them are met: behind a demand that is not
met the visit goes on with the next request.

## Main definitions

* `Demand`, `Demand.Met`, `Demand.error` : one demand, when it is met, and the error when it is not.
* `Registry.demands` : the demands of requests, in the order of the visit.
* `Registry.Level` : the record types that the visit comes to, with the requests made there.
* `Registry.Resolvable` : a level whose requests can be met.
-/
namespace RecordProjection

/-- Something that a request needs: a field of a record type, a record type for the value of a
field, or a path of record types that is no longer than the limit. -/
inductive Demand
  | field (model : Model) (name : String)
  | target (model : String) (source : FieldSchema)
  | depth (path : List String)

namespace Demand

/-- A demand is met. -/
def Met (maxDepth : Nat) : Demand → Prop
  | field model name => ∃ f ∈ model.fields, f.name = name
  | target _ source => source.nestedModel ≠ none ∨ source.type ∉ primitiveTypes
  | depth path => path.length ≤ maxDepth

instance (maxDepth : Nat) : (d : Demand) → Decidable (d.Met maxDepth)
  | field model name => inferInstanceAs (Decidable (∃ f ∈ model.fields, f.name = name))
  | target _ source =>
    inferInstanceAs (Decidable (source.nestedModel ≠ none ∨ source.type ∉ primitiveTypes))
  | depth path => inferInstanceAs (Decidable (path.length ≤ maxDepth))

/-- The error of a demand that is not met. -/
def error (maxDepth : Nat) : Demand → SchemaError
  | field model name => .unknownField name model.name model.fieldNames
  | target model source => .notNestable source.name model
  | depth path => .tooDeep maxDepth path

/-- The name of the error of a demand. -/
def code : Demand → String
  | field .. => "UNKNOWN_FIELD"
  | target .. => "NOT_NESTABLE"
  | depth _ => "MAX_DEPTH_EXCEEDED"

theorem code_error (maxDepth : Nat) (d : Demand) : (d.error maxDepth).code = d.code := by
  cases d <;> rfl

/-- Demands made one after the other, up to the first that is not met. -/
def checkAll (maxDepth : Nat) : List Demand → Except SchemaError Unit
  | [] => .ok ()
  | d :: ds => if d.Met maxDepth then checkAll maxDepth ds else .error (d.error maxDepth)

variable {maxDepth : Nat} {ds : List Demand}

theorem checkAll_append (ds ds' : List Demand) :
    checkAll maxDepth (ds ++ ds') = checkAll maxDepth ds >>= fun _ => checkAll maxDepth ds' := by
  induction ds with
  | nil => rfl
  | cons d ds ih =>
    by_cases hd : d.Met maxDepth
    · simp only [List.cons_append, checkAll, if_pos hd, ih]
    · simp only [List.cons_append, checkAll, if_neg hd]
      rfl

theorem checkAll_eq_ok_iff : checkAll maxDepth ds = .ok () ↔ ∀ d ∈ ds, d.Met maxDepth := by
  induction ds with
  | nil => simp [checkAll]
  | cons d ds ih =>
    by_cases hd : d.Met maxDepth
    · simp [checkAll, hd, ih]
    · simp [checkAll, hd]

/-- The error is that of the first demand that is not met. -/
theorem checkAll_eq_error_iff {e : SchemaError} : checkAll maxDepth ds = .error e ↔
    ∃ before d after, ds = before ++ d :: after ∧ (∀ b ∈ before, b.Met maxDepth) ∧
      ¬ d.Met maxDepth ∧ e = d.error maxDepth := by
  induction ds with
  | nil => simp [checkAll]
  | cons d ds ih =>
    by_cases hd : d.Met maxDepth
    · rw [checkAll, if_pos hd, ih]
      constructor
      · rintro ⟨before, x, after, rfl, hbefore, hx⟩
        exact ⟨d :: before, x, after, rfl, by simpa using ⟨hd, hbefore⟩, hx⟩
      · rintro ⟨before, x, after, heq, hbefore, hx⟩
        cases before with
        | nil =>
          obtain ⟨rfl, -⟩ := List.cons.inj heq
          exact absurd hd hx.1
        | cons b before =>
          obtain ⟨rfl, rfl⟩ := List.cons.inj heq
          exact ⟨before, x, after, rfl, fun y hy => hbefore y (List.mem_cons_of_mem _ hy), hx⟩
    · rw [checkAll, if_neg hd]
      constructor
      · intro h
        exact ⟨[], d, ds, rfl, by simp, hd, (Except.error.inj h).symm⟩
      · rintro ⟨before, x, after, heq, hbefore, -, rfl⟩
        cases before with
        | nil =>
          obtain ⟨rfl, -⟩ := List.cons.inj heq
          rfl
        | cons b before =>
          obtain ⟨rfl, -⟩ := List.cons.inj heq
          exact absurd (hbefore d List.mem_cons_self) hd

end Demand

namespace Registry

/-! ## The visit -/

/-- What requests demand of the record type that a path leads to. A wildcard on its own demands
nothing further there, whatever list stands behind it. -/
def demandsThere (r : Registry) (path : List String) (target : String) (specs : List FieldSpec)
    (inner : List String → Model → List Demand) : List Demand :=
  match specs with
  | [.wildcard ..] => []
  | _ => (r.find? target).toList.flatMap (inner path)

/-- What a list in parentheses demands at one of the fields that it stands behind: a record type to
go on with, a path to it that is not too long, and then what its own requests demand there. An
empty list demands nothing. -/
def demandsBelow (r : Registry) (path : List String) (model : Model)
    (nested : Option (List FieldSpec)) (inner : List String → Model → List Demand)
    (source : FieldSchema) : List Demand :=
  match nested with
  | none | some [] => []
  | some specs =>
    .target model.name source :: source.target?.toList.flatMap fun target =>
      .depth (path ++ [target]) :: r.demandsThere (path ++ [target]) target specs inner

theorem demandsBelow_of_ne_nil {r : Registry} {path : List String} {model : Model}
    {specs : List FieldSpec} {inner : List String → Model → List Demand} {source : FieldSchema}
    (h : specs ≠ []) : r.demandsBelow path model (some specs) inner source =
      .target model.name source :: source.target?.toList.flatMap fun target =>
        .depth (path ++ [target]) :: r.demandsThere (path ++ [target]) target specs inner := by
  cases specs with
  | nil => exact absurd rfl h
  | cons spec specs => rfl

mutual

/-- The demands of a request: that its field is there, and what its list demands at each of the
fields that it stands for. -/
def demandsOf (r : Registry) (path : List String) (model : Model) : FieldSpec → List Demand
  | .wildcard _ nested =>
    model.fields.flatMap (r.demandsBelow path model nested fun path m =>
      demandsInside r path m nested)
  | .named name _ nested _ =>
    .field model name ::
      (model.field? name).toList.flatMap (r.demandsBelow path model nested fun path m =>
        demandsInside r path m nested)

/-- The demands of a list in parentheses. -/
def demandsInside (r : Registry) (path : List String) (model : Model) :
    Option (List FieldSpec) → List Demand
  | none => []
  | some specs => demands r path model specs

/-- The demands of requests at the end of a path, one request after the other. -/
def demands (r : Registry) (path : List String) (model : Model) : List FieldSpec → List Demand
  | [] => []
  | spec :: specs => demandsOf r path model spec ++ demands r path model specs

end

/-- The fields of a record type that a request stands for. -/
def StandsFor (model : Model) (spec : FieldSpec) (source : FieldSchema) : Prop :=
  match spec with
  | .wildcard .. => source ∈ model.fields
  | .named name .. => model.field? name = some source

/-- The requests of a list in parentheses. A wildcard on its own is a plain one. -/
def innerRequests : List FieldSpec → List FieldSpec
  | [.wildcard ..] => [.all]
  | specs => specs

/-- The levels that requests on a record type come to: the level they are made on, and one for each
list in parentheses and each field it stands behind, if the value of that field has a record
type. -/
inductive Level (r : Registry) (path₀ : List String) (model₀ : Model) (specs₀ : List FieldSpec) :
    List String → Model → List FieldSpec → Prop
  | here : Level r path₀ model₀ specs₀ path₀ model₀ specs₀
  | inside {path : List String} {model m : Model} {specs inner : List FieldSpec} {spec : FieldSpec}
      {source : FieldSchema} {target : String} (h : Level r path₀ model₀ specs₀ path model specs)
      (hspec : spec ∈ specs) (hsource : StandsFor model spec source)
      (hinner : spec.nested = some inner) (hne : inner ≠ [])
      (htarget : source.target? = some target) (hm : r.find? target = some m) :
      Level r path₀ model₀ specs₀ (path ++ [target]) m (innerRequests inner)

/-- The requests made on a level can be met: the path to it is not too long, every field that is
named is there, and wherever a list stands behind a request that is not empty, the value of the
field has a record type. -/
structure Resolvable (maxDepth : Nat) (path : List String) (model : Model)
    (specs : List FieldSpec) : Prop where
  depth : path.length ≤ maxDepth
  fields : ∀ name key nested h, .named name key nested h ∈ specs → ∃ f ∈ model.fields, f.name = name
  targets : ∀ spec ∈ specs, ∀ source inner, StandsFor model spec source →
    spec.nested = some inner → inner ≠ [] →
      source.nestedModel ≠ none ∨ source.type ∉ primitiveTypes

end Registry
end RecordProjection
