import RecordProjection.Descriptor.Basic
import RecordProjection.Record.Coercion
import RecordProjection.Record.Location
import RecordProjection.Record.Unflatten

/-!
# Projecting payloads

A payload is walked along a descriptor. Members that are not there are left out, a field that
should be a list and is none becomes the empty list, and the values of date, moment and decimal
fields are coerced. The walk fails where it needs a mapping and finds something else, or where a
value cannot be coerced, at the first such place in the order of the descriptor.
-/
namespace RecordProjection

/-- A value that had to be a mapping and is none: a record as a whole, or the value of a field. -/
inductive Obstacle
  | record (model : String) (location : Location) (value : Value)
  | member (model field target : String) (location : Location) (value : Value)

namespace Obstacle

/-- The record type whose descriptor the obstacle was met in. -/
def model : Obstacle → String
  | record model .. => model
  | member model .. => model

/-- The field whose value is the obstacle, unless it is a record as a whole. -/
def field? : Obstacle → Option String
  | record .. => none
  | member _ field .. => some field

/-- The record type that the value should have had. -/
def expected : Obstacle → String
  | record model .. => model
  | member _ _ target .. => target

/-- Where the obstacle stands. -/
def location : Obstacle → Location
  | record _ location _ => location
  | member _ _ _ location _ => location

/-- The obstacle itself. -/
def value : Obstacle → Value
  | record _ _ value => value
  | member _ _ _ _ value => value

/-- An obstacle in words. -/
def message : Obstacle → String
  | record model location value =>
    "Expected object for model '" ++ model ++ "' at " ++ location.text ++ ", got "
      ++ value.kindName
  | member _ field _ location value =>
    "Expected object for nested field '" ++ field ++ "' at " ++ location.text ++ ", got "
      ++ value.kindName

end Obstacle

/-- Why a payload has no projection. -/
inductive ProjectionError
  | obstacle (o : Obstacle)
  | coercion (e : CoercionError)
  | emptyJoiner

/-- A value read as a scalar of a type. -/
def readScalar (type : String) (v : Value) : Except ProjectionError Value :=
  (v.coerce type).mapError .coercion

/-- The value of a field whose own fields are not asked for. -/
def readPlain (source : FieldSchema) (v : Value) : Except ProjectionError Value :=
  if source.isList then
    match v with
    | .list items => (items.mapM (readScalar source.type)).map .list
    | _ => .ok (.list [])
  else readScalar source.type v

/-- The value of a field whose own fields are asked for; `inner` projects a value of it at a place.
A list is projected item by item. -/
def readNested (model target : String) (source : FieldSchema)
    (inner : Value → Location → Except ProjectionError Value) (v : Value) (l : Location) :
    Except ProjectionError Value :=
  if source.isList then
    match v with
    | .list items => (items.zipIdx.mapM fun (item, i) => inner item (l.item i)).map .list
    | _ => .ok (.list [])
  else
    match v with
    | .null => .ok .null
    | .mapping _ => inner v l
    | _ => .error (.obstacle (.member model source.name target l v))

mutual

/-- The projection of a value along a descriptor. -/
def Descriptor.project : Descriptor → Value → Location → Except ProjectionError Value
  | ⟨model, fields, _, _⟩, v, l =>
    match v with
    | .mapping members => (ResolvedField.projectAll model members l [] fields).map .mapping
    | _ => .error (.obstacle (.record model l v))

/-- The projection of the value of a field. -/
def ResolvedField.project (model : String) :
    ResolvedField → Value → Location → Except ProjectionError Value
  | ⟨source, _, _, none⟩, v, _ => readPlain source v
  | ⟨source, _, _, some nested⟩, v, l =>
    readNested model nested.model source nested.project v l

/-- The members of the result, one field after the other, behind those that are done. -/
def ResolvedField.projectAll (model : String) (members : Members) (l : Location)
    (done : Members) : List ResolvedField → Except ProjectionError Members
  | [] => .ok done
  | f :: fs =>
    match Entries.get? f.source.name members with
    | none => ResolvedField.projectAll model members l done fs
    | some v => do
      let w ← f.project model v (l.member f.source.name)
      ResolvedField.projectAll model members l (Entries.insert f.key w done) fs

end

namespace Descriptor

/-- A payload as a descriptor takes it: with its joined keys taken apart if it is a flat one. -/
def unflattened (d : Descriptor) (joiner : Option Joiner) (raw : Value) :
    Except ProjectionError Value :=
  if d.isFlat then
    match raw, joiner with
    | .mapping members, some j => .ok (j.unflatten (.mapping members))
    | .mapping _, none => .error .emptyJoiner
    | _, _ => .ok raw
  else .ok raw

/-- The record that a payload gives. -/
def record (d : Descriptor) (joiner : Option Joiner) (raw : Value) (origin : String) :
    Except ProjectionError Value := do
  d.project (← d.unflattened joiner raw) (.start origin)

/-- The records that the items of a list give, up to the first that gives none. -/
def records (d : Descriptor) (joiner : Option Joiner) (items : List Value) :
    Except ProjectionError (List Value) :=
  items.zipIdx.mapM fun (item, i) => d.record joiner item ("index " ++ toString i)

end Descriptor
end RecordProjection
