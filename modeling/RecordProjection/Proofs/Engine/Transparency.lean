import RecordProjection.Proofs.Engine.Requests
import RecordProjection.Proofs.Engine.Steps
import RecordProjection.Proofs.Shape.CacheKey
import RecordProjection.Proofs.Shape.Language

/-!
# Caches cannot be seen

What an engine remembers is always what it would work out anew: a shape is kept under the trimmed
text that it is parsed from, and a descriptor under a key that belongs to one record type and one
shape alone. Every request keeps memory that way, so no history of requests changes a result.

## Main definitions

* `Faithful` : every entry of a memory is what the engine would work out for its key.
* `Gives` : an outcome with a given result that leaves faithful memory.
-/
namespace RecordProjection

/-! ## Faithful memory -/

/-- Texts with the same trimmed text stand for the same shape. -/
theorem Shape.parse_eq_of_trim_eq {t t' : String} (h : Text.trim t = Text.trim t') :
    Shape.parse t = Shape.parse t' := by
  have hchars : Text.trimChars t.toList = Text.trimChars t'.toList := by
    rw [← Text.toList_trim, h, Text.toList_trim]
  rw [Shape.parse, Shape.parse, hchars]

/-- Every entry of a memory is what the engine would work out for its key. -/
structure Faithful (e : Engine) (m : Memory) : Prop where
  shapes : ∀ key shape, (key, shape) ∈ m.shapes →
    ∀ text, Text.trim text = key → Shape.parse text = .ok shape
  descriptors : ∀ key d, (key, some d) ∈ m.descriptors.entries →
    ∀ model shape, shape.cacheKey model = key → e.registry.resolve e.maxDepth.1 model shape = .ok d

/-- An outcome has this result and leaves faithful memory. -/
structure Gives (e : Engine) {α : Type} (o : Outcome α) (r : Except Failure α) : Prop where
  result_eq : o.result = r
  faithful : Faithful e o.memory

theorem faithful_freshMemory (e : Engine) : Faithful e e.freshMemory := by
  refine ⟨?_, ?_⟩
  · intro key shape h
    exact absurd h List.not_mem_nil
  · intro key d h
    exact absurd h List.not_mem_nil

namespace Gives
variable {e : Engine} {α β : Type} {o : Outcome α} {r : Except Failure α}

theorem andThen {next : α → Memory → Outcome β} {f : α → Except Failure β} (h : Gives e o r)
    (hnext : ∀ a m, Faithful e m → Gives e (next a m) (f a)) :
    Gives e (o.andThen next) (r.bind f) := by
  obtain ⟨hresult, hm⟩ := h
  rw [Outcome.andThen, ← hresult]
  cases o.result with
  | error err => exact ⟨rfl, hm⟩
  | ok a => exact ⟨(hnext a o.memory hm).result_eq, (hnext a o.memory hm).faithful⟩

theorem mapResult (h : Gives e o r) (next : α → Except Failure β) :
    Gives e (o.mapResult next) (r.bind next) := by
  refine ⟨?_, h.faithful⟩
  rw [Outcome.mapResult, h.result_eq]

end Gives

namespace Faithful
variable {e : Engine} {m : Memory}

/-- A shape found in memory is the one its text stands for. -/
theorem parse_eq (hm : Faithful e m) {text : String} {shape : Shape}
    (h : Entries.get? (Text.trim text) m.shapes = some shape) : Shape.parse text = .ok shape :=
  hm.shapes _ shape (Entries.mem_of_get? h) text rfl

/-- Memory stays faithful when a parsed shape is kept under its trimmed text. -/
theorem insertShape (hm : Faithful e m) {text : String} {shape : Shape}
    (h : Shape.parse text = .ok shape) :
    Faithful e { m with shapes := Entries.insert (Text.trim text) shape m.shapes } := by
  refine ⟨?_, hm.descriptors⟩
  intro key kept hkept t ht
  rcases Entries.mem_of_mem_insert hkept with heq | hmem
  · obtain ⟨rfl, rfl⟩ := Prod.mk.inj heq
    rw [Shape.parse_eq_of_trim_eq ht, h]
  · exact hm.shapes key kept hmem t ht

/-- A descriptor found in memory is the one its record type and shape resolve to. -/
theorem resolve_eq (hm : Faithful e m) {model : String} {shape : Shape} {d : Descriptor}
    (h : m.descriptors.value? (shape.cacheKey model) = some d) :
    e.registry.resolve e.maxDepth.1 model shape = .ok d :=
  hm.descriptors _ d (FifoCache.mem_entries_of_value? h) model shape rfl

/-- Memory stays faithful when its descriptors change in their counters only. -/
theorem of_entries_eq (hm : Faithful e m) {cache : FifoCache String Descriptor}
    (h : cache.entries = m.descriptors.entries) : Faithful e { m with descriptors := cache } := by
  refine ⟨hm.shapes, ?_⟩
  intro key d hd
  exact hm.descriptors key d (h ▸ hd)

/-- Memory stays faithful when a resolved descriptor is stored: no other record type and shape have
its key. -/
theorem putDescriptor (hm : Faithful e m) {model : String} {shape : Shape} {d : Descriptor}
    (h : e.registry.resolve e.maxDepth.1 model shape = .ok d) :
    Faithful e
      { m with descriptors := (m.descriptors.put (shape.cacheKey model) (some d)).cache } := by
  refine ⟨hm.shapes, ?_⟩
  intro key kept hkept model' shape' hkey
  rcases FifoCache.mem_of_mem_entries_put hkept with heq | hmem
  · obtain ⟨rfl, hd⟩ := Prod.mk.inj heq
    obtain ⟨rfl, rfl⟩ := Shape.eq_of_cacheKey_eq hkey
    rw [h, Option.some.inj hd]
  · exact hm.descriptors key kept hmem model' shape' hkey

end Faithful

/-! ## One request -/

namespace Engine
variable {e : Engine} {m : Memory}

theorem gives_parse (hm : Faithful e m) (text : String) :
    Gives e (e.parse m text) ((Shape.parse text).mapError .notShape) := by
  by_cases hcache : e.cachesShapes = true
  · cases hkept : Entries.get? (Text.trim text) m.shapes with
    | some shape =>
      rw [parse_of_kept hcache hkept, hm.parse_eq hkept]
      exact ⟨rfl, hm⟩
    | none =>
      cases hparse : Shape.parse text with
      | error err =>
        rw [parse_of_error hcache hkept hparse]
        exact ⟨rfl, hm⟩
      | ok shape =>
        have hinsert := hm.insertShape hparse
        rw [Entries.insert_of_notMem (Entries.get?_eq_none_iff.1 hkept)] at hinsert
        rw [parse_of_ok hcache hkept hparse]
        exact ⟨rfl, hinsert⟩
  · rw [parse_of_uncached (Bool.not_eq_true _ ▸ hcache)]
    exact ⟨rfl, hm⟩

theorem gives_shapeOf (hm : Faithful e m) (input : ShapeInput) (flat flatLists : Option Bool) :
    Gives e (e.shapeOf m input flat flatLists) (plainShape input flat flatLists) := by
  cases input with
  | text s => exact (gives_parse hm s).mapResult _
  | shape shape => exact ⟨rfl, hm⟩

theorem gives_descriptor (hm : Faithful e m) (model : String) (shape : Shape) :
    Gives e (e.descriptor m model shape) (e.plainDescriptor model shape) := by
  rw [plainDescriptor]
  by_cases hcache : e.cachesDescriptors = true
  · cases hkept : m.descriptors.value? (shape.cacheKey model) with
    | some d =>
      rw [descriptor_of_kept hcache hkept, hm.resolve_eq hkept]
      exact ⟨rfl, hm.of_entries_eq rfl⟩
    | none =>
      have hmissed : Faithful e { m with descriptors := m.descriptors.withMiss } :=
        hm.of_entries_eq rfl
      cases hresolve : e.registry.resolve e.maxDepth.1 model shape with
      | error err =>
        rw [descriptor_of_error hcache hkept hresolve]
        exact ⟨rfl, hmissed⟩
      | ok d =>
        rw [descriptor_of_ok hcache hkept hresolve]
        exact ⟨rfl, hmissed.putDescriptor hresolve⟩
  · rw [descriptor_of_uncached (Bool.not_eq_true _ ▸ hcache)]
    exact ⟨rfl, hm⟩

theorem gives_describe (hm : Faithful e m) (model : String) (input : ShapeInput)
    (flat flatLists : Option Bool) :
    Gives e (e.describe m model input flat flatLists)
      ((plainShape input flat flatLists).bind (e.plainDescriptor model)) :=
  (gives_shapeOf hm input flat flatLists).andThen fun shape _ hm => gives_descriptor hm model shape

/-- Served from faithful memory, a request has its plain result. -/
theorem gives_serve (hm : Faithful e m) (r : Request) :
    Gives e (e.serve m r) (e.plainResult r) := by
  cases r with
  | ask query input flat flatLists =>
    cases query with
    | shape => exact (gives_shapeOf hm input flat flatLists).mapResult _
    | descriptor model => exact (gives_describe hm model input flat flatLists).mapResult _
    | record model raw =>
      exact ((gives_describe hm model input flat flatLists).mapResult _).mapResult _
    | records model raw =>
      exact ((gives_describe hm model input flat flatLists).mapResult _).mapResult _
  | forgetShapes =>
    refine ⟨rfl, ?_, hm.descriptors⟩
    intro key shape h
    exact absurd h List.not_mem_nil
  | forgetDescriptors =>
    refine ⟨rfl, hm.shapes, ?_⟩
    intro key d h
    exact absurd h List.not_mem_nil

/-! ## Runs -/

/-- Requests leave faithful memory behind. -/
theorem faithful_memoryAfter (hm : Faithful e m) (requests : List Request) :
    Faithful e (e.memoryAfter m requests) := by
  induction requests generalizing m with
  | nil => exact hm
  | cons r rs ih => exact ih (gives_serve hm r).faithful

/-- A descriptor does not depend on what was asked before. -/
theorem descriptorAfter_eq (e : Engine) (before : List Request) (model : String) (shape : Shape) :
    e.descriptorAfter before model shape = e.plainDescriptor model shape :=
  (gives_descriptor (faithful_memoryAfter (faithful_freshMemory e) before) model shape).result_eq

/-- From faithful memory on, each request of a sequence has its plain result. -/
theorem results_eq_map_plainResult (hm : Faithful e m) (requests : List Request) :
    e.results m requests = requests.map e.plainResult := by
  induction requests generalizing m with
  | nil => rfl
  | cons r rs ih =>
    have hr := gives_serve hm r
    rw [results, List.map_cons, hr.result_eq, ih hr.faithful]

/-- A text gives the shape that it is parsed to, whose flags are off like those of the text. -/
theorem plainShape_text {t : String} {shape : Shape} (h : Shape.parse t = .ok shape)
    (flat flatLists : Option Bool) :
    plainShape (.text t) flat flatLists = plainShape (.shape shape) flat flatLists := by
  obtain ⟨-, -, hflat, hflatLists⟩ := Shape.parse_eq_ok_iff.1 h
  rw [plainShape, plainShape, h, hflat, hflatLists]
  rfl

/-- Caches cannot be seen: whatever was asked before, a request has the result that it has on a
new engine without caches, and a parsed shape does as well as its text. -/
theorem results_eq_uncached (e : Engine) (size : Declaration.Positive) :
    (∀ requests : List Request, e.results e.freshMemory requests =
      requests.map fun r => ((e.uncached size).serve (e.uncached size).freshMemory r).result) ∧
    ∀ (before before' : List Request) (query : Query) (t : String) (shape : Shape)
      (flat flatLists : Option Bool), Shape.parse t = .ok shape →
      (e.serve (e.memoryAfter e.freshMemory before)
        (.ask query (.text t) flat flatLists)).result =
      (e.serve (e.memoryAfter e.freshMemory before')
        (.ask query (.shape shape) flat flatLists)).result := by
  refine ⟨?_, ?_⟩
  · intro requests
    have hplain (r : Request) :
        ((e.uncached size).serve (e.uncached size).freshMemory r).result = e.plainResult r :=
      (gives_serve (faithful_freshMemory _) r).result_eq
    simp only [hplain]
    exact results_eq_map_plainResult (faithful_freshMemory e) requests
  · intro before before' query t shape flat flatLists hparse
    have hm := faithful_memoryAfter (faithful_freshMemory e) before
    have hm' := faithful_memoryAfter (faithful_freshMemory e) before'
    rw [(gives_serve hm _).result_eq, (gives_serve hm' _).result_eq, plainResult, plainResult,
      plainShape_text hparse]

end Engine
end RecordProjection
