import RecordProjection.Json.Reader
import RecordProjection.Schema.Basic
import RecordProjection.Schema.Error

/-!
# Registries

A registry holds the record types of a catalog. Every record type that a field refers to is in it,
whether it was declared before the field or behind it.
-/
namespace RecordProjection

/-- The first reference of a field to a record type that is not among these: the model it was
found on, the field, and the name that is unknown. -/
def danglingReference? (models : List Model) : Option (String × String × String) :=
  models.findSome? fun m =>
    m.fields.findSome? fun f =>
      (f.references.find? fun r => !models.any fun m' => m'.name == r).map fun r =>
        (m.name, f.name, r)

/-- Record types that refer to nothing but each other. -/
structure Registry where
  models : List Model
  closed : danglingReference? models = none

namespace Registry

/-! ## Loading a catalog -/

/-- The first member that is no mapping. -/
def firstNonMapping? (table : Members) : Option String :=
  table.findSome? fun (field, v) =>
    match v with
    | .mapping _ => none
    | _ => some field

/-- The field of a record type with this declaration. A declaration gives no name of its own. -/
def loadField (model field : String) (members : Members) : Except CatalogFault FieldSchema :=
  if (Entries.get? "name" members).isSome then .error (.nameDeclared model)
  else
    match FieldSchema.ofDeclaration (("name", .text field) :: members) with
    | .error faults => .error (.invalidField model faults)
    | .ok f => .ok f

/-- The fields of a table, up to the first that is not in order. -/
def loadFields (model : String) : Members → Except CatalogFault (List FieldSchema)
  | [] => .ok []
  | (field, .mapping members) :: table => do
    let f ← loadField model field members
    let fs ← loadFields model table
    .ok (f :: fs)
  | (field, _) :: _ => .error (.declarationNotMapping model field)

/-- The record type of a name and a table of fields. -/
def loadModel (name : String) (table : Value) : Except CatalogFault Model :=
  if primitiveTypes.contains name then .error (.primitiveName name)
  else
    match table with
    | .mapping table =>
      match firstNonMapping? table with
      | some field => .error (.declarationNotMapping name field)
      | none => (loadFields name table).map fun fields => ⟨name, fields⟩
    | _ => .error (.tableNotMapping name)

/-- The record types of a catalog, up to the first that is not in order. -/
def loadModels : Members → Except CatalogFault (List Model)
  | [] => .ok []
  | (name, table) :: catalog => do
    let m ← loadModel name table
    let ms ← loadModels catalog
    .ok (m :: ms)

/-- The registry of these record types, if they refer to nothing else. -/
def ofModels (models : List Model) : Except CatalogFault Registry :=
  match h : danglingReference? models with
  | some (model, field, reference) => .error (.unknownReference field model reference)
  | none => .ok ⟨models, h⟩

/-- The registry of a catalog. -/
def ofCatalog (catalog : Members) : Except CatalogFault Registry :=
  (loadModels catalog).bind ofModels

/-! ## Looking up -/

/-- The record type of a name. -/
def find? (r : Registry) (name : String) : Option Model := r.models.find? fun m => m.name == name

/-- A record type of this name is there. -/
def contains (r : Registry) (name : String) : Bool := (r.find? name).isSome

/-- The names of the record types, sorted. -/
def modelNames (r : Registry) : List String :=
  (r.models.map Model.name).mergeSort fun a b => decide (a ≤ b)

/-- The record type of a name, which has to be there. -/
def model (r : Registry) (name : String) : Except SchemaError Model :=
  match r.find? name with
  | some m => .ok m
  | none => .error (.unknownModel name)

/-- A field of a record type; both have to be there. -/
def field (r : Registry) (model name : String) : Except SchemaError FieldSchema :=
  match r.model model with
  | .error e => .error e
  | .ok m =>
    match m.field? name with
    | some f => .ok f
    | none => .error (.unknownField name m.name m.fieldNames)

end Registry
end RecordProjection
