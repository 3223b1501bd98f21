import RecordProjection.Record.Projection
import RecordProjection.Schema.Registry
import RecordProjection.Settings
import RecordProjection.Shape.Syntax

/-!
# Failures

Everything that can stop a request to an engine, or the making of one.
-/
namespace RecordProjection

/-- An argument outside its range. -/
inductive ArgumentError
  | depthBelowOne (depth : Int)
  | sizeBelowOne (size : Int)
  | emptyJoiner
  | integerTooLong (digits : Nat)
  deriving DecidableEq

namespace ArgumentError

/-- What is said of a size below one. A number with more digits than are written takes the place of
the text that it should stand in. -/
def belowOneText (name : String) (n : Int) : String :=
  if (Number.decimal n.natAbs).length ≤ Json.maxDigits then
    name ++ " must be >= 1, got " ++ toString n
  else Json.tooLongText ""

/-- An error in words. -/
def message : ArgumentError → String
  | depthBelowOne depth => belowOneText "max_depth" depth
  | sizeBelowOne size => belowOneText "max_size" size
  | emptyJoiner => Settings.emptyJoinerText
  | integerTooLong digits => Json.tooLongText (": value has " ++ toString digits ++ " digits")

end ArgumentError

/-- What is said of a value that has no items. -/
def notIterableText (v : Value) : String := "'" ++ v.fullKindName ++ "' object is not iterable"

/-- What is said of a catalog that has no members. -/
def withoutMembersText (v : Value) : String :=
  "'" ++ v.fullKindName ++ "' object has no attribute 'items'"

/-- Why a request has no answer. The first three are the failures that a caller has to expect. -/
inductive Failure
  | notShape (e : SyntaxError)
  | schema (e : SchemaError)
  | obstacle (o : Obstacle)
  | declaration (faults : List Fault)
  | argument (e : ArgumentError)
  | coercion (e : CoercionError)
  | notIterable (value : Value)

/-- A failed projection as a failed request. -/
def Failure.ofProjection : ProjectionError → Failure
  | .obstacle o => .obstacle o
  | .coercion e => .coercion e
  | .emptyJoiner => .argument .emptyJoiner

/-- The registry of the catalog that the octets of a JSON text hold. -/
def Registry.ofOctets (bytes : List UInt8) : Except Failure Registry :=
  match Json.readOctets bytes with
  | .ok (.mapping catalog) =>
    (Registry.ofCatalog catalog).mapError fun fault => .schema (.invalidCatalog fault)
  | .ok _ => .error (.schema (.invalidCatalog .notMapping))
  | .error .malformed => .error (.schema (.invalidCatalog .notJson))
  | .error (.integerTooLong digits) => .error (.argument (.integerTooLong digits))

end RecordProjection
