import RecordProjection.Proofs.Engine.Transparency
import RecordProjection.Schema.Builtin
import Mathlib.Data.List.Induction

/-!
# What requests leave in memory

A request changes a memory at two moments: when its text has been parsed, and when the descriptor
is looked up. What fails before them leaves no trace, and nothing behind them is remembered, so no
payload has an influence. A run keeps the shapes of the texts that were parsed since shapes were
last forgotten, and nothing else.

## Main definitions

* `Engine.Leaves` : what a failure leaves in memory.
* `Request.kept?` : what an engine keeps of a request, a trimmed text with its shape.
* `Request.sinceForgotten` : the requests behind the last one that forgets shapes.
-/
namespace RecordProjection

namespace Engine
variable {e : Engine} {m : Memory}

/-! ## Queries -/

section Queries
variable {query : Query} {input : ShapeInput} {flat flatLists : Option Bool} {f : Failure}

/-- The shapes have stayed as they were, or gained the shape of the text that was given. -/
def GainsAtMost (e : Engine) (input : ShapeInput) (shapes shapes' : Entries String Shape) : Prop :=
  shapes' = shapes ∨
  ∃ text shape, input = .text text ∧ e.cachesShapes = true ∧ Shape.parse text = .ok shape ∧
    shapes' = shapes ++ [(Text.trim text, shape)]

/-- What is left in memory by a failure from before the payload is looked at. -/
def Leaves (e : Engine) (m : Memory) (input : ShapeInput) (m' : Memory) : Failure → Prop
  | .notShape _ => m' = m
  | .schema _ => e.GainsAtMost input m.shapes m'.shapes ∧
      m'.descriptors = if e.cachesDescriptors then m.descriptors.withMiss else m.descriptors
  | _ => True

/-- A shape that a caller gives has no influence on the descriptors, and leaves no trace if it is
none. -/
theorem shapeOf_cases (e : Engine) (m : Memory) (input : ShapeInput)
    (flat flatLists : Option Bool) :
    (∃ shape shapes events, e.GainsAtMost input m.shapes shapes ∧
      e.shapeOf m input flat flatLists = ⟨.ok shape, { m with shapes := shapes }, events⟩) ∨
    ∃ err, e.shapeOf m input flat flatLists = ⟨.error (.notShape err), m, []⟩ := by
  cases input with
  | shape shape => exact .inl ⟨_, _, _, .inl rfl, rfl⟩
  | text text =>
    rw [shapeOf]
    rcases e.parse_cases m text with ⟨shape, events, h⟩ | ⟨err, h⟩ | ⟨shape, hcache, hparse, h⟩
    · rw [h]
      exact .inl ⟨_, _, _, .inl rfl, rfl⟩
    · rw [h]
      exact .inr ⟨err, rfl⟩
    · rw [h]
      exact .inl ⟨_, _, _, .inr ⟨text, shape, rfl, hcache, hparse, rfl⟩, rfl⟩

theorem leaves_shapeOf (h : (e.shapeOf m input flat flatLists).result = .error f) :
    e.Leaves m input (e.shapeOf m input flat flatLists).memory f := by
  rcases e.shapeOf_cases m input flat flatLists with ⟨_, shapes, _, -, hshape⟩ | ⟨err, hshape⟩
  · rw [hshape] at h
    cases h
  · rw [hshape] at h ⊢
    cases h
    rfl

theorem leaves_describe {model : String}
    (h : (e.describe m model input flat flatLists).result = .error f) :
    e.Leaves m input (e.describe m model input flat flatLists).memory f := by
  rcases Outcome.andThen_of_error h with ⟨h, hmemory⟩ | ⟨shape, hok, h, hmemory⟩
  · rw [describe, hmemory]
    exact leaves_shapeOf h
  · rw [describe, hmemory]
    rcases e.shapeOf_cases m input flat flatLists with
      ⟨_, shapes, _, hgains, hshape⟩ | ⟨err, hshape⟩
    · rw [hshape] at h ⊢
      rcases e.descriptor_cases { m with shapes := shapes } model shape with
        ⟨d, cache, events, hd⟩ | ⟨err, hd⟩
      · rw [hd] at h
        cases h
      · rw [hd] at h ⊢
        cases h
        exact ⟨hgains, rfl⟩
    · rw [hshape] at hok
      cases hok

/-- What goes on without the memory leaves what was left before, if it fails too late to leave
anything of its own. -/
theorem leaves_mapResult {α β : Type} {o : Outcome α} {next : α → Except Failure β}
    (ho : ∀ f, o.result = .error f → e.Leaves m input o.memory f)
    (hnext : ∀ a f, next a = .error f → e.Leaves m input o.memory f) (f : Failure)
    (h : (o.mapResult next).result = .error f) :
    e.Leaves m input (o.mapResult next).memory f := by
  rcases Outcome.mapResult_eq_error_iff.1 h with h | ⟨a, -, h⟩
  · exact ho f h
  · exact hnext a f h

theorem leaves_answer {α β : Type} {o : Outcome α} {g : α → β}
    (ho : ∀ f, o.result = .error f → e.Leaves m input o.memory f) (f : Failure)
    (h : (o.mapResult fun a => .ok (g a)).result = .error f) :
    e.Leaves m input (o.mapResult fun a => .ok (g a)).memory f := by
  refine leaves_mapResult ho ?_ f h
  intro a f h
  cases h

theorem leaves_of_itemsOf {raw : Value} (h : itemsOf raw = .error f) (m' : Memory) :
    e.Leaves m input m' f := by
  cases raw <;> cases h <;> trivial

theorem leaves_of_projection {α : Type} {r : Except ProjectionError α}
    (h : r.mapError .ofProjection = .error f) (m' : Memory) : e.Leaves m input m' f := by
  obtain ⟨err, -, rfl⟩ := exceptMapError_eq_error_iff.1 h
  cases err <;> trivial

/-- A query that fails leaves what its failure leaves. A payload is looked at too late to leave
anything. -/
theorem leaves_ask (h : (e.ask m query input flat flatLists).result = .error f) :
    e.Leaves m input (e.ask m query input flat flatLists).memory f := by
  cases query with
  | shape => exact leaves_answer (fun _ => leaves_shapeOf) f h
  | descriptor model => exact leaves_answer (fun _ => leaves_describe) f h
  | record model raw =>
    refine leaves_answer (leaves_mapResult (fun _ => leaves_describe) ?_) f h
    intro d f h
    exact leaves_of_projection h _
  | records model raw =>
    refine leaves_answer (leaves_mapResult (fun _ => leaves_describe) ?_) f h
    intro d f h
    rcases exceptBind_eq_error_iff.1 h with h | ⟨items, -, h⟩
    · exact leaves_of_itemsOf h _
    · exact leaves_of_projection h _

theorem shapes_describe (e : Engine) (m : Memory) (model : String) (input : ShapeInput)
    (flat flatLists : Option Bool) :
    (e.describe m model input flat flatLists).memory.shapes =
      (e.shapeOf m input flat flatLists).memory.shapes := by
  rw [describe, Outcome.andThen]
  cases (e.shapeOf m input flat flatLists).result with
  | error err => rfl
  | ok shape =>
    rcases e.descriptor_cases (e.shapeOf m input flat flatLists).memory model shape with
      ⟨d, cache, events, hd⟩ | ⟨err, hd⟩ <;> simp only [hd]

/-- The shapes that a query leaves are those that its input leaves. -/
theorem shapes_ask (e : Engine) (m : Memory) (query : Query) (input : ShapeInput)
    (flat flatLists : Option Bool) :
    (e.ask m query input flat flatLists).memory.shapes =
      (e.shapeOf m input flat flatLists).memory.shapes := by
  cases query with
  | shape => rfl
  | descriptor model => exact e.shapes_describe m model input flat flatLists
  | record model raw => exact e.shapes_describe m model input flat flatLists
  | records model raw => exact e.shapes_describe m model input flat flatLists

end Queries

/-! ## Runs -/

/-- What an engine keeps of a text: its shape under the trimmed text. -/
def kept? (e : Engine) (text : String) : Option (String × Shape) :=
  if e.cachesShapes then (Shape.parse text).toOption.map fun shape => (Text.trim text, shape)
  else none

theorem kept?_eq_some_iff {text key : String} {shape : Shape} : e.kept? text = some (key, shape) ↔
    e.cachesShapes = true ∧ Text.trim text = key ∧ Shape.parse text = .ok shape := by
  rw [kept?]
  cases Shape.parse text <;> simp [Except.toOption]

/-- Shapes with one more, if there is one. -/
def withKept (shapes : Entries String Shape) : Option (String × Shape) → Entries String Shape
  | none => shapes
  | some (key, shape) => Entries.insert key shape shapes

/-- From faithful memory on, parsing keeps the shape of a text, whether it was kept or not. -/
theorem shapes_parse (hm : Faithful e m) (text : String) :
    (e.parse m text).memory.shapes = withKept m.shapes (e.kept? text) := by
  by_cases hcache : e.cachesShapes = true
  · rw [kept?, if_pos hcache]
    cases hkept : Entries.get? (Text.trim text) m.shapes with
    | some shape =>
      rw [parse_of_kept hcache hkept, hm.parse_eq hkept]
      exact (Entries.insert_of_get? hkept).symm
    | none =>
      cases hparse : Shape.parse text with
      | error err =>
        rw [parse_of_error hcache hkept hparse]
        rfl
      | ok shape =>
        rw [parse_of_ok hcache hkept hparse]
        exact (Entries.insert_of_notMem (Entries.get?_eq_none_iff.1 hkept) shape).symm
  · rw [parse_of_uncached (Bool.not_eq_true _ ▸ hcache), kept?, if_neg hcache]
    rfl

end Engine

namespace Request

/-- A request to forget all shapes. -/
def forgetsShapes : Request → Bool
  | forgetShapes => true
  | _ => false

/-- What an engine keeps of a request. -/
def kept? (e : Engine) : Request → Option (String × Shape)
  | ask _ (.text text) _ _ => e.kept? text
  | _ => none

theorem kept?_eq_some_iff {e : Engine} {r : Request} {p : String × Shape} : r.kept? e = some p ↔
    ∃ query text flat flatLists, r = ask query (.text text) flat flatLists ∧
      e.kept? text = some p := by
  constructor
  · intro h
    cases r with
    | ask query input flat flatLists =>
      cases input with
      | text text => exact ⟨query, text, flat, flatLists, rfl, h⟩
      | shape shape => cases h
    | forgetShapes => cases h
    | forgetDescriptors => cases h
  · rintro ⟨query, text, flat, flatLists, rfl, h⟩
    exact h

/-- The requests behind the last one that forgets shapes. -/
def sinceForgotten (requests : List Request) : List Request :=
  (requests.reverse.takeWhile fun r => !r.forgetsShapes).reverse

theorem sinceForgotten_append_singleton (requests : List Request) (r : Request) :
    sinceForgotten (requests ++ [r]) =
      if r.forgetsShapes then [] else sinceForgotten requests ++ [r] := by
  rw [sinceForgotten, List.reverse_append, List.reverse_singleton, List.singleton_append,
    List.takeWhile_cons]
  cases r.forgetsShapes <;> simp [sinceForgotten]

end Request

namespace Engine
variable {e : Engine} {m : Memory}

theorem memoryAfter_append_singleton (e : Engine) (m : Memory) (requests : List Request)
    (r : Request) :
    e.memoryAfter m (requests ++ [r]) = (e.serve (e.memoryAfter m requests) r).memory := by
  induction requests generalizing m with
  | nil => rfl
  | cons r' requests ih => exact ih _

theorem shapes_serve (hm : Faithful e m) (r : Request) : (e.serve m r).memory.shapes =
    if r.forgetsShapes then [] else withKept m.shapes (r.kept? e) := by
  cases r with
  | ask query input flat flatLists =>
    rw [serve, shapes_ask]
    cases input with
    | text text => exact shapes_parse hm text
    | shape shape => rfl
  | forgetShapes => rfl
  | forgetDescriptors => rfl

/-- A run keeps what is to be kept of its requests since shapes were last forgotten, each text in
the place where it came first. -/
theorem shapes_memoryAfter (e : Engine) (requests : List Request) :
    (e.memoryAfter e.freshMemory requests).shapes =
      Entries.ofList ((Request.sinceForgotten requests).filterMap (Request.kept? e)) := by
  induction requests using List.reverseRecOn with
  | nil => rfl
  | append_singleton requests r ih =>
    have hm := faithful_memoryAfter (faithful_freshMemory e) requests
    rw [memoryAfter_append_singleton, shapes_serve hm, Request.sinceForgotten_append_singleton]
    split
    · rfl
    · rw [ih, List.filterMap_append]
      cases hkept : r.kept? e with
      | none => simp [hkept, withKept]
      | some p => simp [hkept, withKept, Entries.ofList_append_singleton]

/-- What is kept under one text is the same shape. -/
theorem eq_of_kept? {text text' : String} {p q : String × Shape} (hp : e.kept? text = some p)
    (hq : e.kept? text' = some q) (h : p.1 = q.1) : p = q := by
  obtain ⟨key, shape⟩ := p
  obtain ⟨key', shape'⟩ := q
  obtain ⟨-, htrim, hparse⟩ := kept?_eq_some_iff.1 hp
  obtain ⟨-, htrim', hparse'⟩ := kept?_eq_some_iff.1 hq
  have hshape : shape = shape' := by
    have htexts : Text.trim text = Text.trim text' := by rw [htrim, htrim']; exact h
    rw [Shape.parse_eq_of_trim_eq htexts, hparse'] at hparse
    exact (Except.ok.inj hparse).symm
  rw [hshape]
  exact congrArg (·, shape') h

/-- The shapes that a run keeps are those of the texts that were parsed since shapes were last
forgotten. -/
theorem mem_shapes_memoryAfter {requests : List Request} {key : String} {shape : Shape} :
    (key, shape) ∈ (e.memoryAfter e.freshMemory requests).shapes ↔ e.cachesShapes = true ∧
      ∃ query text flat flatLists,
        .ask query (.text text) flat flatLists ∈ Request.sinceForgotten requests ∧
          Text.trim text = key ∧ Shape.parse text = .ok shape := by
  rw [shapes_memoryAfter, Entries.mem_ofList_iff, List.mem_filterMap]
  · constructor
    · rintro ⟨r, hr, hkept⟩
      obtain ⟨query, text, flat, flatLists, rfl, hkept⟩ := Request.kept?_eq_some_iff.1 hkept
      obtain ⟨hcache, hparsed⟩ := kept?_eq_some_iff.1 hkept
      exact ⟨hcache, query, text, flat, flatLists, hr, hparsed⟩
    · rintro ⟨hcache, query, text, flat, flatLists, hr, hparsed⟩
      exact ⟨_, hr, kept?_eq_some_iff.2 ⟨hcache, hparsed⟩⟩
  · intro p hp q hq h
    obtain ⟨_, -, hp⟩ := List.mem_filterMap.1 hp
    obtain ⟨_, -, hq⟩ := List.mem_filterMap.1 hq
    obtain ⟨_, _, _, _, -, hp⟩ := Request.kept?_eq_some_iff.1 hp
    obtain ⟨_, _, _, _, -, hq⟩ := Request.kept?_eq_some_iff.1 hq
    exact eq_of_kept? hp hq h

/-- After any requests, a query without a shape leaves the memory as it was; one that the schemas do
not allow leaves one more miss, and at most its shape under its trimmed text; and a payload leaves
what its descriptor leaves. The memory keeps the texts that were parsed since shapes were last
forgotten, each once and with its shape. -/
theorem memory_of_failures (e : Engine) (requests : List Request) :
    let m := e.memoryAfter e.freshMemory requests
    (∀ query input flat flatLists err,
      (e.ask m query input flat flatLists).result = .error (.notShape err) →
        (e.ask m query input flat flatLists).memory = m) ∧
    (∀ query input flat flatLists err,
      (e.ask m query input flat flatLists).result = .error (.schema err) →
        e.GainsAtMost input m.shapes (e.ask m query input flat flatLists).memory.shapes ∧
        (e.ask m query input flat flatLists).memory.descriptors =
          if e.cachesDescriptors then m.descriptors.withMiss else m.descriptors) ∧
    (∀ model input flat flatLists raw,
      (e.ask m (.record model raw) input flat flatLists).memory =
        (e.ask m (.descriptor model) input flat flatLists).memory ∧
      (e.ask m (.records model raw) input flat flatLists).memory =
        (e.ask m (.descriptor model) input flat flatLists).memory) ∧
    (Entries.keys m.shapes).Nodup ∧
    ∀ key shape, (key, shape) ∈ m.shapes ↔ e.cachesShapes = true ∧
      ∃ query text flat flatLists,
        .ask query (.text text) flat flatLists ∈ Request.sinceForgotten requests ∧
          Text.trim text = key ∧ Shape.parse text = .ok shape := by
  refine ⟨?_, ?_, ?_, ?_, ?_⟩
  · intro query input flat flatLists err h
    exact leaves_ask h
  · intro query input flat flatLists err h
    exact leaves_ask h
  · intro model input flat flatLists raw
    exact ⟨rfl, rfl⟩
  · rw [shapes_memoryAfter]
    exact Entries.nodup_keys_ofList _
  · intro key shape
    exact mem_shapes_memoryAfter

/-- An engine with the built-in schemas and the default settings. -/
def usual : Engine := ofSettings .builtin .default

/-- A blank text leaves no trace, and a field that is unknown leaves one miss. -/
theorem memory_of_blank_and_unknown :
    (usual.ask usual.freshMemory .shape (.text " ") none none).result =
      .error (.notShape .emptyShape) ∧
    (usual.ask usual.freshMemory .shape (.text " ") none none).memory = usual.freshMemory ∧
    (∃ err, (usual.ask usual.freshMemory (.record "Contract" .null)
      (.shape ⟨[.named "colour" none none (by decide)], false, false⟩) none none).result =
        .error (.schema err)) ∧
    (usual.ask usual.freshMemory (.record "Contract" .null)
      (.shape ⟨[.named "colour" none none (by decide)], false, false⟩) none none).memory.descriptors
        = usual.freshMemory.descriptors.withMiss := by
  obtain ⟨hshape, hschema, -⟩ := memory_of_failures usual []
  exact ⟨rfl, hshape _ _ _ _ _ rfl, ⟨_, rfl⟩, (hschema _ _ _ _ _ rfl).2⟩

end Engine
end RecordProjection
