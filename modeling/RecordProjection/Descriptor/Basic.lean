import RecordProjection.Schema.Basic
import RecordProjection.Shape.Basic

/-!
# Descriptors

A descriptor is a shape that has been resolved against the schemas: for each key of the result it
holds the field to read, and the descriptor of the field's value when fields of that value are
asked for. Only the flags of the outermost descriptor ever say anything.
-/
namespace RecordProjection

mutual

/-- A resolved list of fields of one record type. -/
structure Descriptor where
  model : String
  fields : List ResolvedField
  isFlat : Bool
  isFlatLists : Bool

/-- A field of a descriptor: where its value comes from, the request it goes back to, the key it
has in the result, and the descriptor of its value if there is one. -/
structure ResolvedField where
  source : FieldSchema
  spec : FieldSpec
  key : String
  nested : Option Descriptor

end

instance : Inhabited Descriptor := ⟨⟨"", [], false, false⟩⟩

namespace Descriptor

/-- The keys of the result, in order. -/
def keys (d : Descriptor) : List String := d.fields.map ResolvedField.key

/-- The first field with this key. -/
def field? (d : Descriptor) (key : String) : Option ResolvedField :=
  d.fields.find? fun f => f.key == key

end Descriptor
end RecordProjection
