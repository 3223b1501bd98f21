import RecordProjection.Descriptor.Resolution
import RecordProjection.Engine.Event
import RecordProjection.Engine.Failure
import RecordProjection.FifoCache
import RecordProjection.Record.Projection
import RecordProjection.Shape.Parser

/-!
# Engines

An engine parses shapes, resolves them against a registry and projects payloads. It remembers the
shapes it has parsed, by their trimmed text, and the descriptors it has resolved, by their cache
key. The memory is a value of its own that goes from request to request; beside the memory each
request gives the events to be noted.
-/
namespace RecordProjection

/-- What an engine goes by. An engine without a joiner cannot take flat payloads. -/
structure Engine where
  registry : Registry
  cachesShapes : Bool
  cachesDescriptors : Bool
  cacheSize : Declaration.Positive
  maxDepth : Declaration.Positive
  joiner : Option Joiner

/-- What an engine remembers. -/
structure Memory where
  shapes : Entries String Shape
  descriptors : FifoCache String Descriptor

/-- What comes of a request: a result, the memory afterwards, and the events on the way. -/
structure Outcome (α : Type) where
  result : Except Failure α
  memory : Memory
  events : List Event

namespace Outcome
variable {α β : Type}

/-- Go on with the result of a request, if it has one. -/
def andThen (o : Outcome α) (next : α → Memory → Outcome β) : Outcome β :=
  match o.result with
  | .ok a =>
    let p := next a o.memory
    { p with events := o.events ++ p.events }
  | .error e => ⟨.error e, o.memory, o.events⟩

/-- Go on with something that leaves the memory alone. -/
def mapResult (o : Outcome α) (next : α → Except Failure β) : Outcome β :=
  ⟨o.result.bind next, o.memory, o.events⟩

end Outcome

/-- A shape as a caller gives it: in shape syntax, or ready. -/
inductive ShapeInput
  | text (s : String)
  | shape (s : Shape)

namespace Engine

/-- The engine of a registry and settings. -/
def ofSettings (registry : Registry) (settings : Settings) : Engine :=
  ⟨registry, settings.cachesShapes, settings.cachesDescriptors, settings.cacheSize,
    settings.maxDepth, some settings.joiner⟩

/-- The engine of parts that are given one by one. -/
def ofParts (registry : Registry) (cachesShapes cachesDescriptors : Bool)
    (maxDepth cacheSize : Int) (joiner : String) : Except ArgumentError Engine :=
  if hd : 1 ≤ maxDepth.toNat then
    if hs : 1 ≤ cacheSize.toNat then
      .ok ⟨registry, cachesShapes, cachesDescriptors, ⟨cacheSize.toNat, hs⟩,
        ⟨maxDepth.toNat, hd⟩, Joiner.of? joiner⟩
    else .error (.sizeBelowOne cacheSize)
  else .error (.depthBelowOne maxDepth)

/-- The memory of an engine at the start. -/
def freshMemory (e : Engine) : Memory := ⟨[], .empty e.cacheSize.1 e.cacheSize.2⟩

/-! ## Shapes -/

/-- The shape that a text stands for, from memory if the engine keeps shapes. -/
def parse (e : Engine) (m : Memory) (text : String) : Outcome Shape :=
  let key := Text.trim text
  match if e.cachesShapes then Entries.get? key m.shapes else none with
  | some shape => ⟨.ok shape, m, [.shapeHit key]⟩
  | none =>
    match Shape.parse text with
    | .error err => ⟨.error (.notShape err), m, []⟩
    | .ok shape =>
      let shapes := if e.cachesShapes then Entries.insert key shape m.shapes else m.shapes
      ⟨.ok shape, { m with shapes := shapes }, []⟩

/-- The shape that a caller gives. A flag that is not set is off in shape syntax, and stays as it is
in a shape that is ready. -/
def shapeOf (e : Engine) (m : Memory) (input : ShapeInput) (flat flatLists : Option Bool) :
    Outcome Shape :=
  match input with
  | .text s =>
    (e.parse m s).mapResult fun shape =>
      .ok (shape.withFlags (flat.getD false) (flatLists.getD false))
  | .shape shape =>
    ⟨.ok (shape.withFlags (flat.getD shape.isFlat) (flatLists.getD shape.isFlatLists)), m, []⟩

/-! ## Descriptors -/

/-- The descriptor of a shape that is applied to a record type, from memory if the engine keeps
descriptors. -/
def descriptor (e : Engine) (m : Memory) (model : String) (shape : Shape) : Outcome Descriptor :=
  if e.cachesDescriptors then
    let key := shape.cacheKey model
    match m.descriptors.get key with
    | (some d, cache) => ⟨.ok d, { m with descriptors := cache }, [.descriptorHit model]⟩
    | (none, cache) =>
      match e.registry.resolve e.maxDepth.1 model shape with
      | .error err => ⟨.error (.schema err), { m with descriptors := cache }, []⟩
      | .ok d =>
        let stored := cache.put key (some d)
        ⟨.ok (stored.value.getD d), { m with descriptors := stored.cache },
          .descriptorBuilt model d.fields.length :: stored.evicted.toList.map .evicted⟩
  else ⟨(e.registry.resolve e.maxDepth.1 model shape).mapError .schema, m, []⟩

/-- The descriptor of a shape as a caller gives it. -/
def describe (e : Engine) (m : Memory) (model : String) (input : ShapeInput)
    (flat flatLists : Option Bool) : Outcome Descriptor :=
  (e.shapeOf m input flat flatLists).andThen fun shape m => e.descriptor m model shape

/-! ## Records -/

/-- The record that a payload gives. -/
def one (e : Engine) (m : Memory) (model : String) (input : ShapeInput)
    (flat flatLists : Option Bool) (raw : Value) : Outcome Value :=
  (e.describe m model input flat flatLists).mapResult fun d =>
    (d.record e.joiner raw "root").mapError .ofProjection

/-- The items of a value that has some: those of a list, the keys of a mapping, the characters of a
text. -/
def itemsOf : Value → Except Failure (List Value)
  | .list items => .ok items
  | .mapping members => .ok (members.map fun m => .text m.1)
  | .text s => .ok (s.toList.map fun c => .text (String.ofList [c]))
  | v => .error (.notIterable v)

/-- The records that the items of a payload give. The shape is resolved once for all of them. -/
def list (e : Engine) (m : Memory) (model : String) (input : ShapeInput)
    (flat flatLists : Option Bool) (raw : Value) : Outcome (List Value) :=
  (e.describe m model input flat flatLists).mapResult fun d =>
    (itemsOf raw).bind fun items => (d.records e.joiner items).mapError .ofProjection

/-! ## Forgetting -/

/-- Forget all shapes. -/
def forgetShapes (m : Memory) : Memory := { m with shapes := [] }

/-- Forget all descriptors. The counters go on. -/
def forgetDescriptors (m : Memory) : Memory := { m with descriptors := m.descriptors.clear }

end Engine
end RecordProjection
