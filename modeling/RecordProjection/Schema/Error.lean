import RecordProjection.Declaration

/-!
# Errors about schemas

Why a catalog is no registry, and why a shape cannot be resolved against one.
-/
namespace RecordProjection

/-- Why a catalog is refused. -/
inductive CatalogFault
  | notJson
  | notMapping
  | primitiveName (model : String)
  | tableNotMapping (model : String)
  | declarationNotMapping (model field : String)
  | nameDeclared (model : String)
  | invalidField (model : String) (faults : List Fault)
  | unknownReference (field model reference : String)
  deriving DecidableEq

/-- Why a shape and the schemas do not go together, or the schemas among themselves. -/
inductive SchemaError
  | invalidCatalog (fault : CatalogFault)
  | unknownModel (model : String)
  | unknownField (field model : String) (available : List String)
  | notNestable (field model : String)
  | tooDeep (limit : Nat) (path : List String)
  deriving DecidableEq

namespace CatalogFault

/-- A fault in words. What is wrong in detail with a text or a field is left out. -/
def message : CatalogFault → String
  | notJson => "Schema catalog is not valid JSON"
  | notMapping => "Schema catalog must be a JSON object of record types"
  | primitiveName model => "Record type '" ++ model ++ "' collides with a primitive type name"
  | tableNotMapping model =>
    "Invalid schema for record type '" ++ model ++ "': field table must be an object"
  | declarationNotMapping model field =>
    "Invalid schema for record type '" ++ model ++ "': declaration of field '" ++ field
      ++ "' must be an object"
  | nameDeclared model | invalidField model _ =>
    "Invalid schema for record type '" ++ model ++ "'"
  | unknownReference field model reference =>
    "Field '" ++ field ++ "' on model '" ++ model ++ "' references unknown record type '"
      ++ reference ++ "'"

end CatalogFault

namespace SchemaError

/-- The name of a kind of error. -/
def code : SchemaError → String
  | invalidCatalog _ => "INVALID_CATALOG"
  | unknownModel _ => "UNKNOWN_MODEL"
  | unknownField .. => "UNKNOWN_FIELD"
  | notNestable .. => "NOT_NESTABLE"
  | tooDeep .. => "MAX_DEPTH_EXCEEDED"

/-- The most fields that an error names. -/
def maxListedFields : Nat := 20

/-- The fields that there are, as many as an error names, and the number of the rest. -/
def availableText (available : List String) : String :=
  if available.isEmpty then ""
  else
    " Available fields: " ++ ", ".intercalate (available.take maxListedFields)
      ++ if maxListedFields < available.length then
        ", ... (" ++ toString (available.length - maxListedFields) ++ " more)"
      else ""

/-- An error in words. -/
def message : SchemaError → String
  | invalidCatalog fault => fault.message
  | unknownModel model => "Unknown model: " ++ model
  | unknownField field model available =>
    "Field '" ++ field ++ "' does not exist on model '" ++ model ++ "'." ++ availableText available
  | notNestable field model =>
    "Field '" ++ field ++ "' on model '" ++ model ++ "' does not support nested fields."
  | tooDeep limit path =>
    "Shape nests deeper than " ++ toString limit ++ " levels: " ++ " -> ".intercalate path

end SchemaError
end RecordProjection
