import RecordProjection.Engine.Basic

/-!
# Runs of an engine

What a caller can ask of an engine, as data, and what a whole sequence of requests gives: each
request is served with the memory that the one before it left behind.

## Main definitions

* `Engine.serve` : one request.
* `Engine.memoryAfter` : the memory that a sequence of requests leaves behind.
* `Engine.results` : the results of a sequence of requests.
* `Engine.descriptorAfter` : the descriptor that a shape has behind a sequence of requests.
* `Engine.uncached` : the same engine without its caches.
* `Engine.plainResult` : the result that a request has by itself, without any memory.
-/
namespace RecordProjection

/-- What can be asked of a shape. -/
inductive Query
  | shape
  | descriptor (model : String)
  | record (model : String) (raw : Value)
  | records (model : String) (raw : Value)

/-- A request to an engine: a query with the shape it is about, or to forget. -/
inductive Request
  | ask (query : Query) (input : ShapeInput) (flat flatLists : Option Bool)
  | forgetShapes
  | forgetDescriptors

/-- What a request is answered with when it does not fail. -/
inductive Answer
  | shape (s : Shape)
  | descriptor (d : Descriptor)
  | record (v : Value)
  | records (vs : List Value)
  | forgotten

namespace Engine

/-- The answer to a query. -/
def ask (e : Engine) (m : Memory) (query : Query) (input : ShapeInput)
    (flat flatLists : Option Bool) : Outcome Answer :=
  match query with
  | .shape => (e.shapeOf m input flat flatLists).mapResult fun s => .ok (.shape s)
  | .descriptor model =>
    (e.describe m model input flat flatLists).mapResult fun d => .ok (.descriptor d)
  | .record model raw =>
    (e.one m model input flat flatLists raw).mapResult fun v => .ok (.record v)
  | .records model raw =>
    (e.list m model input flat flatLists raw).mapResult fun vs => .ok (.records vs)

/-- Serve a request. -/
def serve (e : Engine) (m : Memory) : Request → Outcome Answer
  | .ask query input flat flatLists => e.ask m query input flat flatLists
  | .forgetShapes => ⟨.ok .forgotten, Engine.forgetShapes m, []⟩
  | .forgetDescriptors => ⟨.ok .forgotten, Engine.forgetDescriptors m, []⟩

/-- The memory that requests leave behind, one after the other. -/
def memoryAfter (e : Engine) (m : Memory) : List Request → Memory
  | [] => m
  | r :: rs => e.memoryAfter (e.serve m r).memory rs

/-- The results of requests, one after the other. -/
def results (e : Engine) (m : Memory) : List Request → List (Except Failure Answer)
  | [] => []
  | r :: rs => (e.serve m r).result :: e.results (e.serve m r).memory rs

/-- The descriptor of a shape on a record type, when these requests were made before. -/
def descriptorAfter (e : Engine) (before : List Request) (model : String) (shape : Shape) :
    Except Failure Descriptor :=
  (e.descriptor (e.memoryAfter e.freshMemory before) model shape).result

/-! ## Results without memory -/

/-- The shape that a caller gives, parsed anew. -/
def plainShape (input : ShapeInput) (flat flatLists : Option Bool) : Except Failure Shape :=
  match input with
  | .text s => ((Shape.parse s).mapError .notShape).bind fun shape =>
    .ok (shape.withFlags (flat.getD false) (flatLists.getD false))
  | .shape shape =>
    .ok (shape.withFlags (flat.getD shape.isFlat) (flatLists.getD shape.isFlatLists))

/-- The descriptor of a shape, resolved anew. -/
def plainDescriptor (e : Engine) (model : String) (shape : Shape) : Except Failure Descriptor :=
  (e.registry.resolve e.maxDepth.1 model shape).mapError .schema

/-- The answer to a query about a shape, worked out anew. -/
def plainAnswer (e : Engine) (shape : Except Failure Shape) : Query → Except Failure Answer
  | .shape => shape.bind fun s => .ok (.shape s)
  | .descriptor model => (shape.bind (e.plainDescriptor model)).bind fun d => .ok (.descriptor d)
  | .record model raw =>
    ((shape.bind (e.plainDescriptor model)).bind fun d =>
      (d.record e.joiner raw "root").mapError .ofProjection).bind fun v => .ok (.record v)
  | .records model raw =>
    ((shape.bind (e.plainDescriptor model)).bind fun d =>
      (itemsOf raw).bind fun items => (d.records e.joiner items).mapError .ofProjection).bind
        fun vs => .ok (.records vs)

/-- The result that a request has by itself. -/
def plainResult (e : Engine) : Request → Except Failure Answer
  | .ask query input flat flatLists => e.plainAnswer (plainShape input flat flatLists) query
  | .forgetShapes | .forgetDescriptors => .ok .forgotten

/-- The same registry, depth and joiner without caches. The size of the unused cache is free. -/
def uncached (e : Engine) (size : Declaration.Positive) : Engine :=
  { e with cachesShapes := false, cachesDescriptors := false, cacheSize := size }

end Engine
end RecordProjection
