import RecordProjection.Entries

/-!
# First-in, first-out caches

A cache of bounded size that gives up its oldest key. Reading never moves a key, so a key that is
read all the time still goes once enough newer ones have come. A key can be held without a value;
it then takes up room, but counts as absent when it is read or stored.
-/
namespace RecordProjection

/-- A cache with its entries in the order of their insertion, and its counters. -/
structure FifoCache (κ : Type) (ν : Type) where
  capacity : Nat
  capacity_pos : 0 < capacity
  entries : Entries κ (Option ν)
  hits : Nat
  misses : Nat
  evictions : Nat

namespace FifoCache
variable {κ ν : Type} [DecidableEq κ]

/-- The empty cache of a capacity. -/
def empty (capacity : Nat) (h : 0 < capacity) : FifoCache κ ν := ⟨capacity, h, [], 0, 0, 0⟩

/-- The keys, the oldest first. -/
def keys (c : FifoCache κ ν) : List κ := Entries.keys c.entries

/-- The number of keys. -/
def size (c : FifoCache κ ν) : Nat := c.entries.length

/-- A key is held, with a value or without. -/
def contains (c : FifoCache κ ν) (key : κ) : Bool := c.keys.contains key

/-- The value under a key, if the key is held with one. -/
def value? (c : FifoCache κ ν) (key : κ) : Option ν := (Entries.get? key c.entries).join

/-- Read a key, and count the hit or the miss. -/
def get (c : FifoCache κ ν) (key : κ) : Option ν × FifoCache κ ν :=
  match c.value? key with
  | some v => (some v, { c with hits := c.hits + 1 })
  | none => (none, { c with misses := c.misses + 1 })

/-- What storing gives: the value that is under the key now, the cache, and the key that had to
go. -/
structure Stored (κ : Type) (ν : Type) where
  value : Option ν
  cache : FifoCache κ ν
  evicted : Option κ

/-- Store a value under a key that has none. A key that has a value keeps it. A new key goes to
the end, and the oldest one leaves when the room is used up. -/
def put (c : FifoCache κ ν) (key : κ) (value : Option ν) : Stored κ ν :=
  match c.value? key with
  | some v => ⟨some v, c, none⟩
  | none =>
    let entries := Entries.insert key value c.entries
    if c.capacity < entries.length then
      ⟨value, { c with entries := entries.tail, evictions := c.evictions + 1 },
        (Entries.keys entries).head?⟩
    else ⟨value, { c with entries := entries }, none⟩

/-- Drop all keys. The counters go on. -/
def clear (c : FifoCache κ ν) : FifoCache κ ν := { c with entries := [] }

end FifoCache
end RecordProjection
