import RecordProjection.Proofs.Engine.Steps
import RecordProjection.Proofs.Shape.CacheKey
import RecordProjection.Schema.Builtin

/-!
# The memory of descriptors as a table of pairs

An engine keeps its descriptors under keys that are texts. What can be seen of that memory is what
can be seen of a table of record types and shapes, compared as they are and without any key: the
memory represents the table, every call keeps it so, and the tallies of any calls are the same.

## Main definitions

* `PairTable` : pairs of a record type and a shape, with counters.
* `PairTable.call` : what a call does to a table.
* `Engine.call` : what a call does to the memory of an engine.
* `observe` : the tallies of calls, one after the other.
* `Represents` : a memory keeps the pairs of a table, in their order.
-/
namespace RecordProjection

/-! ## Calls -/

/-- A record type as a caller gives it: by name, or as a member of an enumeration that stands for
the name. -/
inductive Base
  | name (model : String)
  | member (label model : String)

/-- The name of the record type. -/
def Base.model : Base → String
  | name model | member _ model => model

/-- A call for the descriptor of a shape, or to forget all descriptors. -/
inductive DescriptorCall
  | describe (base : Base) (shape : Shape)
  | forget

/-- What is seen of a memory after a call: whether the call was answered from it, its size and its
counters. -/
structure Tally where
  hit : Bool
  size : Nat
  hits : Nat
  misses : Nat
  evictions : Nat
  deriving DecidableEq

/-- The tallies of calls, one after the other. A step gives the next state and whether it was a
hit. -/
def observe {σ : Type} (step : σ → DescriptorCall → σ × Bool) (tally : σ → Bool → Tally) (s : σ) :
    List DescriptorCall → List Tally
  | [] => []
  | c :: cs => tally (step s c).1 (step s c).2 :: observe step tally (step s c).1 cs

/-- The tally of a cache. -/
def FifoCache.tally {κ ν : Type} (c : FifoCache κ ν) (hit : Bool) : Tally :=
  ⟨hit, c.size, c.hits, c.misses, c.evictions⟩

/-- What a call does to the memory of an engine. A hit is noted as an event. -/
def Engine.call (e : Engine) (m : Memory) : DescriptorCall → Memory × Bool
  | .describe base shape =>
    let o := e.descriptor m base.model shape
    (o.memory, decide (Event.descriptorHit base.model ∈ o.events))
  | .forget => (forgetDescriptors m, false)

/-- The tallies that calls leave behind in an engine. -/
def Engine.tallies (e : Engine) : List DescriptorCall → List Tally :=
  observe e.call (fun m => m.descriptors.tally) e.freshMemory

/-! ## Tables -/

/-- Pairs of a record type and a shape in the order in which they were kept, the oldest first, and
counters. -/
structure PairTable where
  pairs : List (String × Shape)
  hits : Nat
  misses : Nat
  evictions : Nat

namespace PairTable

/-- The table without pairs. -/
def empty : PairTable := ⟨[], 0, 0, 0⟩

/-- Keep a pair, and drop the oldest one when there are more than the capacity allows. -/
def keep (capacity : Nat) (t : PairTable) (pair : String × Shape) : PairTable :=
  if capacity < (t.pairs ++ [pair]).length then
    { t with pairs := (t.pairs ++ [pair]).tail, evictions := t.evictions + 1 }
  else { t with pairs := t.pairs ++ [pair] }

/-- What a call does to a table, given which pairs can be built. A pair in the table is a hit. A
pair that is not is a miss, and is kept if it can be built. -/
def call (capacity : Nat) (builds : String → Shape → Bool) (t : PairTable) :
    DescriptorCall → PairTable × Bool
  | .describe base shape =>
    if (base.model, shape) ∈ t.pairs then ({ t with hits := t.hits + 1 }, true)
    else
      let missed := { t with misses := t.misses + 1 }
      (if builds base.model shape then missed.keep capacity (base.model, shape) else missed, false)
  | .forget => ({ t with pairs := [] }, false)

/-- The tally of a table. -/
def tally (t : PairTable) (hit : Bool) : Tally :=
  ⟨hit, t.pairs.length, t.hits, t.misses, t.evictions⟩

end PairTable

/-! ## Representation -/

/-- The key under which a pair is kept. -/
def pairKey (pair : String × Shape) : String := pair.2.cacheKey pair.1

theorem pairKey_injective : Function.Injective pairKey := by
  rintro ⟨model, shape⟩ ⟨model', shape'⟩ h
  obtain ⟨rfl, rfl⟩ := Shape.eq_of_cacheKey_eq h
  rfl

/-- A cache keeps the pairs of a table, in their order and each with a descriptor, and has counted
the same. -/
structure Represents (c : FifoCache String Descriptor) (t : PairTable) : Prop where
  keys : c.keys = t.pairs.map pairKey
  filled : ∀ p ∈ c.entries, p.2.isSome = true
  hits : c.hits = t.hits
  misses : c.misses = t.misses
  evictions : c.evictions = t.evictions

namespace Represents
variable {c : FifoCache String Descriptor} {t : PairTable}

theorem mem_keys_iff (h : Represents c t) (model : String) (shape : Shape) :
    shape.cacheKey model ∈ c.keys ↔ (model, shape) ∈ t.pairs := by
  rw [h.keys]
  exact List.mem_map_of_injective pairKey_injective (a := (model, shape))

theorem tally_eq (h : Represents c t) (hit : Bool) : c.tally hit = t.tally hit := by
  have hsize : c.size = t.pairs.length := by
    simpa [FifoCache.keys, Entries.keys, FifoCache.size] using congrArg List.length h.keys
  rw [FifoCache.tally, PairTable.tally, hsize, h.hits, h.misses, h.evictions]

theorem withHit (h : Represents c t) : Represents c.withHit { t with hits := t.hits + 1 } :=
  ⟨h.keys, h.filled, congrArg (· + 1) h.hits, h.misses, h.evictions⟩

theorem withMiss (h : Represents c t) : Represents c.withMiss { t with misses := t.misses + 1 } :=
  ⟨h.keys, h.filled, h.hits, congrArg (· + 1) h.misses, h.evictions⟩

theorem clear (h : Represents c t) : Represents c.clear { t with pairs := [] } :=
  ⟨rfl, fun _ hp => absurd hp List.not_mem_nil, h.hits, h.misses, h.evictions⟩

/-- A new pair takes its place at the end of both. -/
theorem put (h : Represents c t) {model : String} {shape : Shape}
    (hnew : (model, shape) ∉ t.pairs) (d : Descriptor) :
    Represents (c.put (shape.cacheKey model) (some d)).cache
      (t.keep c.capacity (model, shape)) := by
  have hkey : shape.cacheKey model ∉ c.keys := (h.mem_keys_iff model shape).not.2 hnew
  have hkeys : Entries.keys (c.entries ++ [(shape.cacheKey model, some d)]) =
      (t.pairs ++ [(model, shape)]).map pairKey := by
    rw [Entries.keys, List.map_append, List.map_append, ← h.keys]
    rfl
  have hlength : (c.entries ++ [(shape.cacheKey model, some d)]).length =
      (t.pairs ++ [(model, shape)]).length := by
    simpa [Entries.keys] using congrArg List.length hkeys
  have hfilled : ∀ p ∈ c.entries ++ [(shape.cacheKey model, some d)], p.2.isSome = true := by
    intro p hp
    rcases List.mem_append.1 hp with hp | hp
    · exact h.filled p hp
    · rw [List.mem_singleton.1 hp]
      rfl
  rw [FifoCache.put_of_notMem hkey, PairTable.keep, hlength]
  split
  · refine ⟨?_, ?_, h.hits, h.misses, congrArg (· + 1) h.evictions⟩
    · rw [FifoCache.keys, Entries.keys, List.map_tail, List.map_tail]
      exact congrArg List.tail hkeys
    · exact fun p hp => hfilled p (List.mem_of_mem_tail hp)
  · exact ⟨hkeys, hfilled, h.hits, h.misses, h.evictions⟩

end Represents

/-! ## Runs -/

section Simulation
variable {σ τ : Type} {step : σ → DescriptorCall → σ × Bool} {step' : τ → DescriptorCall → τ × Bool}
  {tally : σ → Bool → Tally} {tally' : τ → Bool → Tally}

/-- Two states that go through related states, alike in their hits and their tallies, leave the same
tallies. -/
theorem observe_eq_of_simulation {R : σ → τ → Prop}
    (hstep : ∀ s t c, R s t → R (step s c).1 (step' t c).1 ∧ (step s c).2 = (step' t c).2)
    (htally : ∀ s t hit, R s t → tally s hit = tally' t hit) {s : σ} {t : τ} (h : R s t)
    (calls : List DescriptorCall) : observe step tally s calls = observe step' tally' t calls := by
  induction calls generalizing s t with
  | nil => rfl
  | cons c cs ih =>
    obtain ⟨hnext, hhit⟩ := hstep s t c h
    rw [observe, observe, htally _ _ _ hnext, hhit, ih hnext]

end Simulation

namespace Engine
variable {e : Engine} {m : Memory} {t : PairTable}

/-- A pair can be built. -/
def builds (e : Engine) (model : String) (shape : Shape) : Bool :=
  (e.registry.resolve e.maxDepth.1 model shape).isOk

/-- A memory of descriptors that represents a table, of the size of its engine. -/
structure Tabled (e : Engine) (m : Memory) (t : PairTable) : Prop where
  represents : Represents m.descriptors t
  capacity : m.descriptors.capacity = e.cacheSize.1

theorem tabled_freshMemory (e : Engine) : e.Tabled e.freshMemory .empty :=
  ⟨⟨rfl, fun _ hp => absurd hp List.not_mem_nil, rfl, rfl, rfl⟩, rfl⟩

/-- A call for a descriptor is a hit in both or a miss in both, and keeps the table represented. -/
theorem tabled_describe (hcache : e.cachesDescriptors = true) (h : e.Tabled m t) (base : Base)
    (shape : Shape) :
    e.Tabled (e.call m (.describe base shape)).1
        (t.call e.cacheSize.1 e.builds (.describe base shape)).1 ∧
      (e.call m (.describe base shape)).2 =
        (t.call e.cacheSize.1 e.builds (.describe base shape)).2 := by
  obtain ⟨hrep, hcapacity⟩ := h
  have hmem : (m.descriptors.value? (shape.cacheKey base.model)).isSome = true ↔
      (base.model, shape) ∈ t.pairs :=
    (FifoCache.isSome_value?_iff hrep.filled).trans (hrep.mem_keys_iff base.model shape)
  rw [call, PairTable.call]
  cases hvalue : m.descriptors.value? (shape.cacheKey base.model) with
  | some d =>
    have hin : (base.model, shape) ∈ t.pairs := hmem.1 (by rw [hvalue]; rfl)
    rw [descriptor_of_kept hcache hvalue, if_pos hin]
    exact ⟨⟨hrep.withHit, hcapacity⟩, by simp⟩
  | none =>
    have hout : (base.model, shape) ∉ t.pairs := fun hin => by simp [hvalue, hin] at hmem
    rw [if_neg hout]
    cases hresolve : e.registry.resolve e.maxDepth.1 base.model shape with
    | error err =>
      have hbuilds : e.builds base.model shape = false := by rw [builds, hresolve]; rfl
      rw [descriptor_of_error hcache hvalue hresolve, hbuilds]
      exact ⟨⟨hrep.withMiss, hcapacity⟩, by simp⟩
    | ok d =>
      have hbuilds : e.builds base.model shape = true := by rw [builds, hresolve]; rfl
      have hput := hrep.withMiss.put hout d
      rw [descriptor_of_ok hcache hvalue hresolve, hbuilds, ← hcapacity]
      exact ⟨⟨hput, (FifoCache.capacity_put _ _ _).trans hcapacity⟩, by simp⟩

/-- Whatever is called, an engine that keeps descriptors and a table of its size leave the same
tallies: the same hits, and the same size and counters after each call. -/
theorem tallies_eq_table (e : Engine) (h : e.cachesDescriptors = true)
    (calls : List DescriptorCall) : e.tallies calls =
      observe (PairTable.call e.cacheSize.1 e.builds) PairTable.tally .empty calls := by
  refine observe_eq_of_simulation (R := e.Tabled) ?_ ?_ e.tabled_freshMemory calls
  · intro m t c hm
    cases c with
    | describe base shape => exact tabled_describe h hm base shape
    | forget => exact ⟨⟨hm.represents.clear, hm.capacity⟩, rfl⟩
  · intro m t hit hm
    exact hm.represents.tally_eq hit

/-- An engine with room for one descriptor. -/
def roomForOne : Engine := ⟨.builtin, true, true, ⟨1, by decide⟩, Settings.defaultMaxDepth, none⟩

/-- One field of a record, by name. -/
def fieldShape (name : String) (h : name ≠ "*") : Shape :=
  ⟨[.named name none none h], false, false⟩

/-- A miss, a hit under the other name of the record type, a field that is unknown, the shape on
another record type, the first pair again after it was dropped, and nothing any more. -/
theorem tallies_of_roomForOne :
    roomForOne.tallies [.describe (.name "Contract") (fieldShape "key" (by decide)),
      .describe (.member "CONTRACT" "Contract") (fieldShape "key" (by decide)),
      .describe (.name "Contract") (fieldShape "colour" (by decide)),
      .describe (.name "IDV") (fieldShape "key" (by decide)),
      .describe (.name "Contract") (fieldShape "key" (by decide)), .forget] =
    [⟨false, 1, 0, 1, 0⟩, ⟨true, 1, 1, 1, 0⟩, ⟨false, 1, 1, 2, 0⟩, ⟨false, 1, 1, 3, 1⟩,
      ⟨false, 1, 1, 4, 2⟩, ⟨false, 0, 1, 4, 2⟩] :=
  (tallies_eq_table roomForOne rfl _).trans rfl

end Engine
end RecordProjection
