import RecordProjection.Declaration
import RecordProjection.Shape.Basic

/-!
# Declared shapes

A shape can be given as a value instead of a text: a mapping with its fields and flags, each field
a mapping of its own. Reading one undoes `Shape.payload`. A field of the name `*` is a wildcard
whatever its flag says, and a wildcard with an alias is refused once its parts are in order.
-/
namespace RecordProjection

namespace FieldSpec

open Declaration

/-- A declaration whose name is `*`. -/
def isStar (members : Members) : Bool :=
  match Entries.get? "name" members with
  | some (.text s) => s = "*"
  | _ => false

/-- The wildcard flag of a declaration. It need not be given, and is not read, under the name
`*`. -/
def wildcardFlag (members : Members) : Checked Bool :=
  if isStar members then .ok true else optional members "is_wildcard" false flag

/-- The field with these parts. -/
def ofParts (name : String) (key : Option String) (nested : Option (List FieldSpec))
    (isWildcard : Bool) : Checked FieldSpec :=
  if isWildcard then
    if key.isSome then .fault (.refused "Wildcard fields cannot have aliases")
    else .ok (wildcard name nested)
  else if h : name ≠ "*" then .ok (named name key nested h)
  else .ok (wildcard name nested)

mutual

/-- The field that a value declares. -/
def ofDeclaration : Value → Checked FieldSpec
  | .mapping members =>
    let parts := (required members "name" Declaration.text).both <|
      (optional members "alias" none optionalText).both <|
      (nestedMember members).both <|
      (wildcardFlag members).both
        (onlyMembers members ["name", "alias", "nested_fields", "is_wildcard"])
    match parts with
    | .error faults => .error faults
    | .ok (name, key, nested, isWildcard, _) => ofParts name key nested isWildcard
  | _ => .fault .notMapping

/-- The list in parentheses that a declaration gives, none if there is no such member. -/
def nestedMember : List (String × Value) → Checked (Option (List FieldSpec))
  | [] => .ok none
  | (key, v) :: members =>
    if key = "nested_fields" then Checked.under (.member key) (nestedList v)
    else nestedMember members

/-- A list of fields or nothing. -/
def nestedList : Value → Checked (Option (List FieldSpec))
  | .null => .ok none
  | .list items => (ofDeclarations 0 items).map some
  | _ => .fault .notList

/-- The fields that the items of a list declare, the first of them at an index. -/
def ofDeclarations (index : Nat) : List Value → Checked (List FieldSpec)
  | [] => .ok []
  | v :: vs =>
    (((ofDeclaration v).under (.item index)).both (ofDeclarations (index + 1) vs)).map
      fun (f, fs) => f :: fs

end

end FieldSpec

namespace Shape

open Declaration

/-- The fields that a value declares. -/
def declaredFields : Value → Checked (List FieldSpec)
  | .list items => FieldSpec.ofDeclarations 0 items
  | _ => .fault .notList

/-- The shape that the members of a declaration give. -/
def ofDeclaration (members : Members) : Checked Shape :=
  ((optional members "fields" [] declaredFields).both <|
    (optional members "is_flat" false flag).both <|
    (optional members "is_flat_lists" false flag).both
      (onlyMembers members ["fields", "is_flat", "is_flat_lists"])).map
    fun (fields, isFlat, isFlatLists, _) => ⟨fields, isFlat, isFlatLists⟩

end Shape
end RecordProjection
