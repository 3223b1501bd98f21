import RecordProjection.Descriptor.Basic
import RecordProjection.Schema.Registry

/-!
# Resolving shapes

A shape is resolved against a record type field by field, from left to right and from the outside
in; the first request that cannot be met is the error. Requests are checked before fields of the
same key are merged, so a request that would have been replaced can still fail.
-/
namespace RecordProjection

/-- The fields of one level with each key once: in the place of its first field, and with the
value of its last. -/
def mergeByKey (fields : List ResolvedField) : List ResolvedField :=
  (Entries.ofList (fields.map fun f => (f.key, f))).map Prod.snd

namespace Registry

/-- A field that asks for nothing inside its value. The key is the alias of the request, or else
the name of the field. -/
def leaf (spec : FieldSpec) (source : FieldSchema) : ResolvedField :=
  ⟨source, spec, spec.alias?.getD source.name, none⟩

/-- The record type to go on with below a field, and the path that leads to it. A path names the
record types from the outermost on and is at most `maxDepth` long. -/
def descend (maxDepth : Nat) (path : List String) (model : String) (source : FieldSchema) :
    Except SchemaError (String × List String) :=
  match source.target? with
  | none => .error (.notNestable source.name model)
  | some target =>
    let path := path ++ [target]
    if maxDepth < path.length then .error (.tooDeep maxDepth path) else .ok (target, path)

/-- The fields that a request stands for on a record type: all of them for a wildcard, else the one
of its name. -/
def sources (r : Registry) (model : Model) (spec : FieldSpec) :
    Except SchemaError (List FieldSchema) :=
  match spec with
  | .wildcard .. => .ok model.fields
  | .named name .. => (r.field model.name name).map ([·])

/-- The plain wildcard on a record type. -/
def allFields (r : Registry) (model : String) : Except SchemaError (List ResolvedField) :=
  (r.model model).map fun m => mergeByKey (m.fields.map (leaf .all))

/-- The fields of a record type below the outermost, from the requests for them and what these
resolve to. A wildcard on its own is a plain one there, whatever list stands behind it. -/
def innerFields (r : Registry) (target : String) (specs : List FieldSpec)
    (resolved : Model → Except SchemaError (List ResolvedField)) :
    Except SchemaError (List ResolvedField) :=
  match specs with
  | [.wildcard ..] => r.allFields target
  | _ => do
    let model ← r.model target
    let fields ← resolved model
    .ok (mergeByKey fields)

/-- A request resolved at one of the fields it stands for. `inner` resolves its list at the end of
a path; an empty list asks for nothing. -/
def resolveAt (r : Registry) (maxDepth : Nat) (path : List String) (model : Model)
    (spec : FieldSpec) (inner : List String → Model → Except SchemaError (List ResolvedField))
    (source : FieldSchema) : Except SchemaError ResolvedField :=
  match spec.nested with
  | none | some [] => .ok (leaf spec source)
  | some specs => do
    let (target, path) ← descend maxDepth path model.name source
    let fields ← r.innerFields target specs (inner path)
    .ok { leaf spec source with nested := some ⟨target, fields, false, false⟩ }

mutual

/-- The fields that a request resolves to, in the order of their declaration. -/
def resolveSpec (r : Registry) (maxDepth : Nat) (path : List String) (model : Model) :
    FieldSpec → Except SchemaError (List ResolvedField)
  | .wildcard label nested => do
    let spec := FieldSpec.wildcard label nested
    let sources ← r.sources model spec
    sources.mapM (r.resolveAt maxDepth path model spec fun path m =>
      resolveInner r maxDepth path m nested)
  | .named name key nested h => do
    let spec := FieldSpec.named name key nested h
    let sources ← r.sources model spec
    sources.mapM (r.resolveAt maxDepth path model spec fun path m =>
      resolveInner r maxDepth path m nested)

/-- The fields that a list in parentheses resolves to. -/
def resolveInner (r : Registry) (maxDepth : Nat) (path : List String) (model : Model) :
    Option (List FieldSpec) → Except SchemaError (List ResolvedField)
  | none => .ok []
  | some specs => resolveSpecs r maxDepth path model specs

/-- The fields that requests resolve to, one request after the other. -/
def resolveSpecs (r : Registry) (maxDepth : Nat) (path : List String) (model : Model) :
    List FieldSpec → Except SchemaError (List ResolvedField)
  | [] => .ok []
  | spec :: specs => do
    let fields ← resolveSpec r maxDepth path model spec
    let more ← resolveSpecs r maxDepth path model specs
    .ok (fields ++ more)

end

/-- The descriptor of a shape that is applied to a record type. -/
def resolve (r : Registry) (maxDepth : Nat) (model : String) (shape : Shape) :
    Except SchemaError Descriptor := do
  let m ← r.model model
  let fields ← resolveSpecs r maxDepth [model] m shape.fields
  .ok ⟨model, mergeByKey fields, shape.isFlat, shape.isFlatLists⟩

end Registry
end RecordProjection
