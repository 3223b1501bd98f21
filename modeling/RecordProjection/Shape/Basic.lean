import RecordProjection.Value
import RecordProjection.Json.Fingerprint

/-!
# Shapes

A shape is a tree of the fields that a projection asks for, with two flags that tell how the
payloads it is applied to are laid out. This module has the tree, its text in shape syntax, and
its canonical payload, from which cache keys and fingerprints are made.
-/
namespace RecordProjection

/-- One requested field: all fields of its level, or the one of this name. A list of fields in
parentheses may follow, possibly an empty one. Only a wildcard bears the name `*`, and no wildcard
has an alias. -/
inductive FieldSpec
  | wildcard (label : String) (nested : Option (List FieldSpec))
  | named (name : String) (key : Option String) (nested : Option (List FieldSpec))
      (name_ne_star : name ≠ "*")

namespace FieldSpec

instance : Inhabited FieldSpec := ⟨wildcard "*" none⟩

/-- The plain wildcard. -/
def all : FieldSpec := wildcard "*" none

/-- The name of a field as it was written. -/
def name : FieldSpec → String
  | wildcard label _ => label
  | named name .. => name

/-- The name under which a field goes into the result, if it is not its own. -/
def alias? : FieldSpec → Option String
  | wildcard .. => none
  | named _ key .. => key

/-- The list in parentheses behind a field. -/
def nested : FieldSpec → Option (List FieldSpec)
  | wildcard _ nested => nested
  | named _ _ nested _ => nested

/-- A field that stands for all fields of its level. -/
def isWildcard : FieldSpec → Bool
  | wildcard .. => true
  | named .. => false

mutual

/-- Equality of fields can be decided. -/
def decEq : (f g : FieldSpec) → Decidable (f = g)
  | wildcard l none, wildcard l' none =>
    if h : l = l' then isTrue (by rw [h]) else isFalse (by simp [h])
  | wildcard l (some fs), wildcard l' (some gs) =>
    match decEqList fs gs with
    | isTrue h' => if h : l = l' then isTrue (by rw [h, h']) else isFalse (by simp [h])
    | isFalse h' => isFalse (by simp [h'])
  | named n a none _, named n' a' none _ =>
    if h : n = n' ∧ a = a' then isTrue (by simp [h]) else isFalse (by simpa using h)
  | named n a (some fs) _, named n' a' (some gs) _ =>
    match decEqList fs gs with
    | isTrue h' =>
      if h : n = n' ∧ a = a' then isTrue (by simp [h, h'])
      else isFalse (by simp only [named.injEq, not_and]; intro hn ha; exact absurd ⟨hn, ha⟩ h)
    | isFalse h' => isFalse (by simp [h'])
  | wildcard _ none, wildcard _ (some _) => isFalse (by simp)
  | wildcard _ (some _), wildcard _ none => isFalse (by simp)
  | named _ _ none _, named _ _ (some _) _ => isFalse (by simp)
  | named _ _ (some _) _, named _ _ none _ => isFalse (by simp)
  | wildcard .., named .. => isFalse (by simp)
  | named .., wildcard .. => isFalse (by simp)

/-- Equality of lists of fields can be decided. -/
def decEqList : (fs gs : List FieldSpec) → Decidable (fs = gs)
  | [], [] => isTrue rfl
  | [], _ :: _ => isFalse (by simp)
  | _ :: _, [] => isFalse (by simp)
  | f :: fs, g :: gs =>
    match decEq f g, decEqList fs gs with
    | isTrue h, isTrue h' => isTrue (by rw [h, h'])
    | isFalse h, _ => isFalse (by simp [h])
    | _, isFalse h' => isFalse (by simp [h'])

end

instance : DecidableEq FieldSpec := decEq

/-! ## Shape syntax -/

/-- An alias behind its two colons. -/
def aliasText : Option String → List Char
  | none => []
  | some a => ':' :: ':' :: a.toList

mutual

/-- A field in shape syntax. -/
def chars : FieldSpec → List Char
  | wildcard label none => label.toList
  | wildcard label (some fs) => label.toList ++ '(' :: listChars fs ++ [')']
  | named name key none _ => name.toList ++ aliasText key
  | named name key (some fs) _ =>
    name.toList ++ aliasText key ++ '(' :: listChars fs ++ [')']

/-- Fields in shape syntax, with commas between them. -/
def listChars : List FieldSpec → List Char
  | [] => []
  | [f] => f.chars
  | f :: fs => f.chars ++ ',' :: listChars fs

end

/-- A field in shape syntax. -/
def text (f : FieldSpec) : String := String.ofList f.chars

/-! ## The canonical payload -/

/-- The member of an alias, left out when there is none. -/
def aliasMember : Option String → Members
  | none => []
  | some a => [("alias", .text a)]

mutual

/-- A field as a value. What is not set has no member. -/
def payload : FieldSpec → Value
  | wildcard label none => .mapping [("name", .text label), ("is_wildcard", .bool true)]
  | wildcard label (some fs) =>
    .mapping [("name", .text label), ("nested_fields", .list (payloads fs)),
      ("is_wildcard", .bool true)]
  | named name key none _ =>
    .mapping (("name", .text name) :: aliasMember key ++ [("is_wildcard", .bool false)])
  | named name key (some fs) _ =>
    .mapping (("name", .text name) :: aliasMember key
      ++ [("nested_fields", .list (payloads fs)), ("is_wildcard", .bool false)])

/-- Fields as values. -/
def payloads : List FieldSpec → List Value
  | [] => []
  | f :: fs => f.payload :: payloads fs

end

end FieldSpec

/-- The fields that a projection asks for. The flags tell whether payloads have joined keys, and
whether their lists are flattened too. -/
structure Shape where
  fields : List FieldSpec
  isFlat : Bool
  isFlatLists : Bool
  deriving DecidableEq

namespace Shape

/-- The same fields under other flags. -/
def withFlags (s : Shape) (isFlat isFlatLists : Bool) : Shape := ⟨s.fields, isFlat, isFlatLists⟩

/-- The fields in shape syntax. The flags have no place there. -/
def text (s : Shape) : String := String.ofList (FieldSpec.listChars s.fields)

/-- A shape as a value. -/
def payload (s : Shape) : Value :=
  .mapping [("fields", .list (FieldSpec.payloads s.fields)), ("is_flat", .bool s.isFlat),
    ("is_flat_lists", .bool s.isFlatLists)]

/-- The canonical text of a shape. -/
def canonical (s : Shape) : String := s.payload.canonical

/-- The key of a shape that is applied to a record type. -/
def cacheKey (s : Shape) (model : String) : String := model ++ ":" ++ s.canonical

/-- The fingerprint of a shape. -/
def fingerprint (s : Shape) : String := s.payload.fingerprint

end Shape
end RecordProjection
