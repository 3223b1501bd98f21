import RecordProjection.Text.Quoted

/-!
# Events

What an engine notes in its log, with the name of the source of each note.
-/
namespace RecordProjection

/-- Something an engine did. -/
inductive Event
  | schemasLoaded (count : Nat)
  | shapeHit (text : String)
  | descriptorHit (model : String)
  | descriptorBuilt (model : String) (fields : Nat)
  | evicted (key : String)
  deriving DecidableEq

namespace Event

/-- The name of the source of an event. -/
def source : Event → String
  | schemasLoaded _ => "recordshape.kernel.schema"
  | shapeHit _ => "recordshape.kernel.parser"
  | descriptorHit _ | descriptorBuilt .. => "recordshape.kernel.generator"
  | evicted _ => "recordshape._internal.fifo_cache"

/-- An event in words. -/
def text : Event → String
  | schemasLoaded count => "Loaded " ++ toString count ++ " record-type schemas"
  | shapeHit text => "Shape cache hit for " ++ Text.quoted text
  | descriptorHit model => "Descriptor cache hit for " ++ model
  | descriptorBuilt model fields =>
    "Built descriptor for " ++ model ++ " (" ++ toString fields ++ " fields)"
  | evicted key => "Evicted cache entry " ++ key

end Event
end RecordProjection
