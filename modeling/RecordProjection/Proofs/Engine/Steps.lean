import RecordProjection.Engine.Basic
import RecordProjection.Proofs.FifoCache
import RecordProjection.Proofs.Results

/-!
# What one call does to a memory

Every way in which a shape is parsed or a descriptor found, each as one equation: the result, the
memory afterwards and the events. Whatever is proved of a memory goes through these equations.
-/
namespace RecordProjection

namespace Outcome
variable {α β : Type} {o : Outcome α} {f : Failure}

theorem mapResult_eq_error_iff {next : α → Except Failure β} :
    (o.mapResult next).result = .error f ↔
      o.result = .error f ∨ ∃ a, o.result = .ok a ∧ next a = .error f :=
  exceptBind_eq_error_iff

/-- A request that goes on with another fails in one of the two, and leaves the memory that the
failing one leaves. -/
theorem andThen_of_error {next : α → Memory → Outcome β}
    (h : (o.andThen next).result = .error f) :
    (o.result = .error f ∧ (o.andThen next).memory = o.memory) ∨
    ∃ a, o.result = .ok a ∧ (next a o.memory).result = .error f ∧
      (o.andThen next).memory = (next a o.memory).memory := by
  rw [andThen] at h ⊢
  cases hresult : o.result with
  | error err =>
    rw [hresult] at h
    cases h
    exact .inl ⟨rfl, rfl⟩
  | ok a =>
    rw [hresult] at h
    exact .inr ⟨a, rfl, h, rfl⟩

end Outcome

namespace Engine
variable {e : Engine} {m : Memory}

/-! ## Parsing -/

section Parsing
variable {text : String} {shape : Shape}

/-- An engine that keeps no shapes parses each text anew. -/
theorem parse_of_uncached (h : e.cachesShapes = false) :
    e.parse m text = ⟨(Shape.parse text).mapError .notShape, m, []⟩ := by
  rw [parse, h, if_neg Bool.false_ne_true]
  cases Shape.parse text <;> rfl

theorem parse_of_kept (h : e.cachesShapes = true)
    (hkept : Entries.get? (Text.trim text) m.shapes = some shape) :
    e.parse m text = ⟨.ok shape, m, [.shapeHit (Text.trim text)]⟩ := by
  rw [parse, if_pos h, hkept]

theorem parse_of_error (h : e.cachesShapes = true)
    (hkept : Entries.get? (Text.trim text) m.shapes = none) {err : SyntaxError}
    (hparse : Shape.parse text = .error err) :
    e.parse m text = ⟨.error (.notShape err), m, []⟩ := by
  rw [parse, if_pos h, hkept, hparse]

/-- A shape that is parsed anew is kept under its trimmed text, behind the others. -/
theorem parse_of_ok (h : e.cachesShapes = true)
    (hkept : Entries.get? (Text.trim text) m.shapes = none)
    (hparse : Shape.parse text = .ok shape) : e.parse m text =
      ⟨.ok shape, { m with shapes := m.shapes ++ [(Text.trim text, shape)] }, []⟩ := by
  rw [← Entries.insert_of_notMem (Entries.get?_eq_none_iff.1 hkept), parse, if_pos h, hkept, hparse]
  simp only [if_pos h]

/-- Parsing leaves the memory alone, with a shape or without one, or adds a shape. -/
theorem parse_cases (e : Engine) (m : Memory) (text : String) :
    (∃ shape events, e.parse m text = ⟨.ok shape, m, events⟩) ∨
    (∃ err, e.parse m text = ⟨.error (.notShape err), m, []⟩) ∨
    ∃ shape, e.cachesShapes = true ∧ Shape.parse text = .ok shape ∧ e.parse m text =
      ⟨.ok shape, { m with shapes := m.shapes ++ [(Text.trim text, shape)] }, []⟩ := by
  by_cases hcache : e.cachesShapes = true
  · cases hkept : Entries.get? (Text.trim text) m.shapes with
    | some shape => exact .inl ⟨shape, _, parse_of_kept hcache hkept⟩
    | none =>
      cases hparse : Shape.parse text with
      | error err => exact .inr (.inl ⟨err, parse_of_error hcache hkept hparse⟩)
      | ok shape => exact .inr (.inr ⟨shape, hcache, rfl, parse_of_ok hcache hkept hparse⟩)
  · rw [parse_of_uncached (Bool.not_eq_true _ ▸ hcache)]
    cases Shape.parse text with
    | error err => exact .inr (.inl ⟨err, rfl⟩)
    | ok shape => exact .inl ⟨shape, _, rfl⟩

end Parsing

/-! ## Descriptors -/

section Descriptors
variable {model : String} {shape : Shape} {d : Descriptor}

/-- An engine that keeps no descriptors works each one out. -/
theorem descriptor_of_uncached (h : e.cachesDescriptors = false) : e.descriptor m model shape =
    ⟨(e.registry.resolve e.maxDepth.1 model shape).mapError .schema, m, []⟩ := by
  rw [descriptor, h, if_neg Bool.false_ne_true]

theorem descriptor_of_kept (h : e.cachesDescriptors = true)
    (hkept : m.descriptors.value? (shape.cacheKey model) = some d) :
    e.descriptor m model shape =
      ⟨.ok d, { m with descriptors := m.descriptors.withHit }, [.descriptorHit model]⟩ := by
  rw [descriptor, if_pos h]
  simp only [FifoCache.get_of_value? hkept]

/-- The miss is counted before it is known whether there is a descriptor. -/
theorem descriptor_of_error (h : e.cachesDescriptors = true)
    (hkept : m.descriptors.value? (shape.cacheKey model) = none) {err : SchemaError}
    (hresolve : e.registry.resolve e.maxDepth.1 model shape = .error err) :
    e.descriptor m model shape =
      ⟨.error (.schema err), { m with descriptors := m.descriptors.withMiss }, []⟩ := by
  rw [descriptor, if_pos h]
  simp only [FifoCache.get_of_value?_none hkept, hresolve]

theorem descriptor_of_ok (h : e.cachesDescriptors = true)
    (hkept : m.descriptors.value? (shape.cacheKey model) = none)
    (hresolve : e.registry.resolve e.maxDepth.1 model shape = .ok d) :
    e.descriptor m model shape =
      let stored := m.descriptors.withMiss.put (shape.cacheKey model) (some d)
      ⟨.ok d, { m with descriptors := stored.cache },
        .descriptorBuilt model d.fields.length :: stored.evicted.toList.map .evicted⟩ := by
  have hmissed : m.descriptors.withMiss.value? (shape.cacheKey model) = none := hkept
  have hvalue := FifoCache.put_value hmissed (some d)
  rw [descriptor, if_pos h]
  simp only [FifoCache.get_of_value?_none hkept, hresolve, hvalue]
  rfl

/-- A lookup gives a descriptor and touches the descriptors alone; or it fails, and has counted a
miss if descriptors are kept. -/
theorem descriptor_cases (e : Engine) (m : Memory) (model : String) (shape : Shape) :
    (∃ d cache events,
      e.descriptor m model shape = ⟨.ok d, { m with descriptors := cache }, events⟩) ∨
    ∃ err, e.descriptor m model shape = ⟨.error (.schema err), { m with descriptors :=
      if e.cachesDescriptors then m.descriptors.withMiss else m.descriptors }, []⟩ := by
  by_cases hcache : e.cachesDescriptors = true
  · rw [if_pos hcache]
    cases hkept : m.descriptors.value? (shape.cacheKey model) with
    | some d => exact .inl ⟨d, _, _, descriptor_of_kept hcache hkept⟩
    | none =>
      cases hresolve : e.registry.resolve e.maxDepth.1 model shape with
      | error err => exact .inr ⟨err, descriptor_of_error hcache hkept hresolve⟩
      | ok d => exact .inl ⟨d, _, _, descriptor_of_ok hcache hkept hresolve⟩
  · rw [if_neg hcache, descriptor_of_uncached (Bool.not_eq_true _ ▸ hcache)]
    cases e.registry.resolve e.maxDepth.1 model shape with
    | error err => exact .inr ⟨err, rfl⟩
    | ok d => exact .inl ⟨d, _, _, rfl⟩

end Descriptors
end Engine
end RecordProjection
