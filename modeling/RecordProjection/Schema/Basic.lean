import RecordProjection.Declaration

/-!
# Schemas

What a record type says about its fields. A field has a type, which is one of nine primitive
types or names a record type, and may name the record type of its value on its own account.
-/
namespace RecordProjection

/-- The primitive types. Every other type is a record type. -/
def primitiveTypes : List String :=
  ["str", "int", "float", "bool", "Decimal", "date", "datetime", "dict", "Any"]

/-- The declaration of one field of a record type. -/
structure FieldSchema where
  name : String
  type : String
  isOptional : Bool
  isList : Bool
  nestedModel : Option String
  deriving DecidableEq

namespace FieldSchema

open Declaration

/-- A field of a primitive type. -/
def isPrimitive (f : FieldSchema) : Bool := primitiveTypes.contains f.type

/-- The record types that a field refers to. -/
def references (f : FieldSchema) : List String :=
  f.nestedModel.toList ++ if f.isPrimitive then [] else [f.type]

/-- The record type of a field's value, if fields of the value can be asked for. -/
def target? (f : FieldSchema) : Option String :=
  match f.nestedModel with
  | some model => some model
  | none => if f.isPrimitive then none else some f.type

/-- A name of a record type that may be left blank. -/
def nestedModelMember (v : Value) : Checked (Option String) :=
  (optionalText v).map (·.filter fun s => !Text.isBlankText s)

/-- The field that the members of a declaration give. -/
def ofDeclaration (members : Members) : Checked FieldSchema :=
  ((required members "name" text).both <|
    (required members "type" text).both <|
    (optional members "is_optional" true flag).both <|
    (optional members "is_list" false flag).both <|
    (optional members "nested_model" none nestedModelMember).both
      (onlyMembers members ["name", "type", "is_optional", "is_list", "nested_model"])).map
    fun (name, type, isOptional, isList, nestedModel, _) =>
      ⟨name, type, isOptional, isList, nestedModel⟩

end FieldSchema

/-- A record type: its name, and its fields in the order of their declaration. -/
structure Model where
  name : String
  fields : List FieldSchema
  deriving DecidableEq

namespace Model

/-- The field of a name. -/
def field? (m : Model) (name : String) : Option FieldSchema :=
  m.fields.find? fun f => f.name == name

/-- The names of the fields, sorted. -/
def fieldNames (m : Model) : List String :=
  (m.fields.map FieldSchema.name).mergeSort fun a b => decide (a ≤ b)

end Model
end RecordProjection
