import RecordProjection.FifoCache
import RecordProjection.Proofs.Entries

/-!
# What caches hold

Where the entries of a cache come from: reading adds none and counts a hit or a miss, and storing
adds the stored one at most, at the end, and takes the oldest one away when the room is used up.
-/
namespace RecordProjection

namespace FifoCache
variable {κ ν : Type}

/-- A cache with one more hit. -/
def withHit (c : FifoCache κ ν) : FifoCache κ ν := { c with hits := c.hits + 1 }

/-- A cache with one more miss. -/
def withMiss (c : FifoCache κ ν) : FifoCache κ ν := { c with misses := c.misses + 1 }

variable [DecidableEq κ]

/-- Reading a key with a value counts a hit. -/
theorem get_of_value? {c : FifoCache κ ν} {key : κ} {v : ν} (h : c.value? key = some v) :
    c.get key = (some v, c.withHit) := by
  rw [get, h]
  rfl

/-- Reading a key without a value counts a miss. -/
theorem get_of_value?_none {c : FifoCache κ ν} {key : κ} (h : c.value? key = none) :
    c.get key = (none, c.withMiss) := by
  rw [get, h]
  rfl

theorem mem_entries_of_value? {c : FifoCache κ ν} {key : κ} {v : ν}
    (h : c.value? key = some v) : (key, some v) ∈ c.entries := by
  rw [value?, Option.join_eq_some_iff] at h
  exact Entries.mem_of_get? h

/-- A key without a value gets the stored one. -/
theorem put_value {c : FifoCache κ ν} {key : κ} (h : c.value? key = none) (value : Option ν) :
    (c.put key value).value = value := by
  simp only [put, h]
  split <;> rfl

theorem capacity_put (c : FifoCache κ ν) (key : κ) (value : Option ν) :
    (c.put key value).cache.capacity = c.capacity := by
  rw [put]
  split
  · rfl
  · simp only
    split <;> rfl

/-- In a cache whose keys all have a value, a key has one just when it is held. -/
theorem isSome_value?_iff {c : FifoCache κ ν} (hfilled : ∀ p ∈ c.entries, p.2.isSome = true)
    {key : κ} : (c.value? key).isSome = true ↔ key ∈ c.keys := by
  rw [keys, Entries.mem_keys_iff_get?, value?]
  cases h : Entries.get? key c.entries with
  | none => simp
  | some v => simpa using hfilled (key, v) (Entries.mem_of_get? h)

/-- Storing under a new key puts it at the end, and takes the oldest one away when the room is used
up. -/
theorem put_of_notMem {c : FifoCache κ ν} {key : κ} (h : key ∉ c.keys) (value : Option ν) :
    (c.put key value).cache =
      if c.capacity < (c.entries ++ [(key, value)]).length then
        { c with entries := (c.entries ++ [(key, value)]).tail, evictions := c.evictions + 1 }
      else { c with entries := c.entries ++ [(key, value)] } := by
  have habsent : c.value? key = none := by
    rw [value?, Entries.get?_eq_none_iff.2 h]
    rfl
  rw [put, habsent, ← Entries.insert_of_notMem h value]
  simp only
  split <;> rfl

/-- Storing adds one entry at most; evicting only takes entries away. -/
theorem mem_of_mem_entries_put {c : FifoCache κ ν} {key : κ} {value : Option ν}
    {p : κ × Option ν} (h : p ∈ (c.put key value).cache.entries) :
    p = (key, value) ∨ p ∈ c.entries := by
  rw [put] at h
  split at h
  · exact .inr h
  · simp only at h
    split at h
    · exact Entries.mem_of_mem_insert (List.mem_of_mem_tail h)
    · exact Entries.mem_of_mem_insert h

end FifoCache

end RecordProjection
