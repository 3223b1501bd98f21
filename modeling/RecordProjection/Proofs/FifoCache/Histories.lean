import RecordProjection.Proofs.FifoCache
import Mathlib.Algebra.GroupWithZero.Nat
import Mathlib.Data.List.DropRight
import Mathlib.Data.List.Infix

/-!
# Histories of caches

What a cache holds and has counted, by the operations that it has been through. Its keys are the
ones that came in last since it was last cleared, as many as there is room for; a key that came in
and is gone was evicted or cleared; and every read was a hit or a miss. A value stays under its key
as long as the key is held, and a key without a value gets the next one where it stands.

## Main definitions

* `FifoCache.Operation` : what can be done to a cache.
* `FifoCache.after` : the cache that operations leave.
* `FifoCache.history` : the operations, each with the cache that it meets.
* `FifoCache.recentKeys` : the keys that came in since the last clearing.
-/
namespace RecordProjection

/-! ## The end of a list -/

/-- Only the end of a list has to be kept for the end of a longer one. -/
theorem rtake_rtake_concat {α : Type} (as : List α) (a : α) (n : Nat) :
    (as.rtake n ++ [a]).rtake n = (as ++ [a]).rtake n := by
  cases n with
  | zero => rw [List.rtake_zero, List.rtake_zero]
  | succ n =>
    have hend : (as.rtake (n + 1)).rtake n = as.rtake n := by
      simp [List.rtake_eq_reverse_take_reverse, List.take_take]
    rw [List.rtake_concat_succ, List.rtake_concat_succ, hend]

theorem rtake_of_length_le {α : Type} {as : List α} {n : Nat} (h : as.length ≤ n) :
    as.rtake n = as := by
  rw [List.rtake, Nat.sub_eq_zero_of_le h, List.drop_zero]

theorem rtake_eq_tail {α : Type} {as : List α} {n : Nat} (h : as.length = n + 1) :
    as.rtake n = as.tail := by
  rw [List.rtake, h, Nat.add_sub_cancel_left, List.drop_one]

theorem length_rtake {α : Type} (as : List α) (n : Nat) :
    (as.rtake n).length = min n as.length := by
  rw [List.rtake, List.length_drop]
  omega

namespace FifoCache
variable {κ ν : Type}

/-- What can be done to a cache. -/
inductive Operation (κ ν : Type)
  | put (key : κ) (value : Option ν)
  | get (key : κ)
  | contains (key : κ)
  | size
  | clear

/-- An operation and the cache that it meets. -/
structure Moment (κ ν : Type) where
  cache : FifoCache κ ν
  operation : Operation κ ν

variable [DecidableEq κ]

/-- The cache that an operation leaves. -/
def serve (c : FifoCache κ ν) : Operation κ ν → FifoCache κ ν
  | .put key value => (c.put key value).cache
  | .get key => (c.get key).2
  | .contains _ => c
  | .size => c
  | .clear => c.clear

/-- The cache that operations leave, one after the other. -/
def after (c : FifoCache κ ν) (operations : List (Operation κ ν)) : FifoCache κ ν :=
  operations.foldl serve c

/-- The operations, each with the cache that it meets. -/
def history (c : FifoCache κ ν) : List (Operation κ ν) → List (Moment κ ν)
  | [] => []
  | op :: operations => ⟨c, op⟩ :: history (c.serve op) operations

namespace Moment

/-- The key that comes in: that of a put, if it is not held yet. -/
def newKey? : Moment κ ν → Option κ
  | ⟨c, .put key _⟩ => if key ∈ c.keys then none else some key
  | _ => none

/-- All keys go. -/
def isClear : Moment κ ν → Bool
  | ⟨_, .clear⟩ => true
  | _ => false

/-- A key is read. -/
def isGet : Moment κ ν → Bool
  | ⟨_, .get _⟩ => true
  | _ => false

/-- A key is read that is held with a value. -/
def isHit : Moment κ ν → Bool
  | ⟨c, .get key⟩ => c.entries.any fun e => decide (e.1 = key) && e.2.isSome
  | _ => false

/-- The number of entries that a clearing takes away. -/
def cleared : Moment κ ν → Nat
  | ⟨c, .clear⟩ => c.size
  | _ => 0

end Moment

/-- The keys that came in since the last clearing, the oldest first. -/
def recentKeys (moments : List (Moment κ ν)) : List κ :=
  (moments.rtakeWhile fun m => !m.isClear).filterMap Moment.newKey?

/-! ## One operation -/

/-- The keys are distinct, and there is room for them. -/
structure Sound (c : FifoCache κ ν) : Prop where
  distinct : c.keys.Nodup
  fits : c.size ≤ c.capacity

omit [DecidableEq κ] in
theorem length_keys (c : FifoCache κ ν) : c.keys.length = c.size := List.length_map _

/-- A key has a value just when it is held with it. -/
theorem value?_eq_some_iff {c : FifoCache κ ν} (h : c.keys.Nodup) {key : κ} {v : ν} :
    c.value? key = some v ↔ (key, some v) ∈ c.entries := by
  rw [value?, Option.join_eq_some_iff]
  exact (Entries.mem_iff_get? (p := (key, some v)) h).symm

/-- A put under a key with a value changes nothing. -/
theorem put_of_value? {c : FifoCache κ ν} {key : κ} {v : ν} (h : c.value? key = some v)
    (value : Option ν) : c.put key value = ⟨some v, c, none⟩ := by
  rw [put, h]

/-- A put under a key that is held without a value gives it the value where it stands. -/
theorem put_of_mem {c : FifoCache κ ν} (hc : c.Sound) {key : κ} (hkey : key ∈ c.keys)
    (h : c.value? key = none) (value : Option ν) :
    c.put key value = ⟨value, { c with entries := Entries.insert key value c.entries }, none⟩ := by
  have hkeys : Entries.keys (Entries.insert key value c.entries) = c.keys := by
    rw [Entries.keys_insert, if_pos (by exact hkey), keys]
  have hlength : (Entries.insert key value c.entries).length = c.size := by
    simpa [Entries.keys, keys, size] using congrArg List.length hkeys
  have hroom : ¬c.capacity < (Entries.insert key value c.entries).length := by
    rw [hlength]
    exact Nat.not_lt.2 hc.fits
  rw [put, h]
  simp only
  rw [if_neg hroom]

/-- A put under a key that is held moves no key. -/
theorem keys_put_of_mem {c : FifoCache κ ν} (hc : c.Sound) {key : κ} (h : key ∈ c.keys)
    (value : Option ν) : (c.put key value).cache.keys = c.keys := by
  cases hv : c.value? key with
  | some v => rw [put_of_value? hv]
  | none =>
    rw [put_of_mem hc h hv, keys, Entries.keys_insert, if_pos (by exact h), keys]

/-- A put of a new key keeps the end of the entries that there is room for. -/
theorem entries_put_of_notMem {c : FifoCache κ ν} (hc : c.Sound) {key : κ} (h : key ∉ c.keys)
    (value : Option ν) :
    (c.put key value).cache.entries = (c.entries ++ [(key, value)]).rtake c.capacity := by
  have hlength : (c.entries ++ [(key, value)]).length = c.size + 1 := by simp [size]
  have hfits := hc.fits
  rw [put_of_notMem h]
  split
  · rw [rtake_eq_tail (by omega)]
  · rw [rtake_of_length_le (by omega)]

theorem keys_put_of_notMem {c : FifoCache κ ν} (hc : c.Sound) {key : κ} (h : key ∉ c.keys)
    (value : Option ν) : (c.put key value).cache.keys = (c.keys ++ [key]).rtake c.capacity := by
  rw [keys, entries_put_of_notMem hc h]
  simp [keys, Entries.keys, List.rtake, List.map_drop]

omit [DecidableEq κ] in
theorem Sound.rtake_keys {c : FifoCache κ ν} (hc : c.Sound) : c.keys.rtake c.capacity = c.keys :=
  rtake_of_length_le (c.length_keys ▸ hc.fits)

theorem keys_get (c : FifoCache κ ν) (key : κ) : (c.get key).2.keys = c.keys := by
  rw [get]
  split <;> rfl

/-- The keys after an operation: a new one goes to the end, and the oldest leave that there is no
room for. -/
theorem keys_serve {c : FifoCache κ ν} (hc : c.Sound) (op : Operation κ ν) :
    (c.serve op).keys =
      if (Moment.mk c op).isClear then []
      else (c.keys ++ (Moment.mk c op).newKey?.toList).rtake c.capacity := by
  have hsame (h : (Moment.mk c op).newKey? = none) :
      c.keys = (c.keys ++ (Moment.mk c op).newKey?.toList).rtake c.capacity := by
    rw [h, Option.toList_none, List.append_nil, hc.rtake_keys]
  cases op with
  | put key value =>
    by_cases hkey : key ∈ c.keys
    · exact (keys_put_of_mem hc hkey value).trans (hsame (if_pos hkey))
    · have hnew : (Moment.mk c (.put key value)).newKey? = some key := if_neg hkey
      rw [hnew]
      exact keys_put_of_notMem hc hkey value
  | get key => exact (c.keys_get key).trans (hsame rfl)
  | contains key => exact hsame rfl
  | size => exact hsame rfl
  | clear => rfl

theorem capacity_serve (c : FifoCache κ ν) (op : Operation κ ν) :
    (c.serve op).capacity = c.capacity := by
  cases op with
  | put key value => exact c.capacity_put key value
  | get key =>
    rw [serve, get]
    split <;> rfl
  | contains key => rfl
  | size => rfl
  | clear => rfl

omit [DecidableEq κ] in
theorem nodup_append_newKey? [DecidableEq κ] {c : FifoCache κ ν} (hc : c.Sound)
    (op : Operation κ ν) : (c.keys ++ (Moment.mk c op).newKey?.toList).Nodup := by
  cases hkey : (Moment.mk c op).newKey? with
  | none => simpa using hc.distinct
  | some key =>
    cases op with
    | put key' value =>
      obtain ⟨hnew, rfl⟩ : key' ∉ c.keys ∧ key' = key := by
        simpa [Moment.newKey?] using hkey
      exact hc.distinct.append (List.nodup_singleton _) (by simpa using hnew)
    | _ => cases hkey

/-- Operations keep a cache sound. -/
theorem Sound.serve {c : FifoCache κ ν} (hc : c.Sound) (op : Operation κ ν) :
    (c.serve op).Sound := by
  have hkeys := keys_serve hc op
  constructor
  · rw [hkeys]
    split
    · exact List.nodup_nil
    · exact (nodup_append_newKey? hc op).sublist (List.drop_sublist _ _)
  · rw [← length_keys, capacity_serve, hkeys]
    split
    · exact Nat.zero_le _
    · rw [length_rtake]
      exact Nat.min_le_left _ _

/-! ## What operations count -/

/-- Whatever came in is held, was evicted or was cleared. -/
theorem evictions_serve {c : FifoCache κ ν} (hc : c.Sound) (op : Operation κ ν) :
    (c.serve op).evictions + (c.serve op).size + (Moment.mk c op).cleared =
      c.evictions + c.size + (Moment.mk c op).newKey?.toList.length := by
  cases op with
  | put key value =>
    by_cases hkey : key ∈ c.keys
    · have hnew : (Moment.mk c (.put key value)).newKey? = none := if_pos hkey
      have hsize : (c.put key value).cache.size = c.size := by
        rw [← length_keys, keys_put_of_mem hc hkey, length_keys]
      have hevictions : (c.put key value).cache.evictions = c.evictions := by
        cases hv : c.value? key with
        | some v => rw [put_of_value? hv]
        | none => rw [put_of_mem hc hkey hv]
      rw [hnew, serve, hsize, hevictions]
      rfl
    · have hnew : (Moment.mk c (.put key value)).newKey? = some key := if_neg hkey
      rw [hnew, serve, put_of_notMem hkey]
      split
      · simp [size, Moment.cleared]
        omega
      · simp [size, Moment.cleared]
        omega
  | get key =>
    have hget : (c.get key).2.evictions = c.evictions ∧ (c.get key).2.size = c.size := by
      rw [get]
      split <;> exact ⟨rfl, rfl⟩
    simp [serve, Moment.cleared, Moment.newKey?, hget]
  | contains key => rfl
  | size => rfl
  | clear =>
    have hempty : c.clear.size = 0 := rfl
    have hsame : c.clear.evictions = c.evictions := rfl
    simp [serve, Moment.cleared, Moment.newKey?, hempty, hsame]

theorem reads_put (c : FifoCache κ ν) (key : κ) (value : Option ν) :
    (c.put key value).cache.hits = c.hits ∧ (c.put key value).cache.misses = c.misses := by
  rw [put]
  split
  · exact ⟨rfl, rfl⟩
  · simp only
    split <;> exact ⟨rfl, rfl⟩

/-- A read counts as a hit or a miss. -/
theorem reads_serve (c : FifoCache κ ν) (op : Operation κ ν) :
    (c.serve op).hits + (c.serve op).misses =
      c.hits + c.misses + if (Moment.mk c op).isGet then 1 else 0 := by
  cases op with
  | put key value =>
    obtain ⟨hhits, hmisses⟩ := c.reads_put key value
    rw [serve, hhits, hmisses]
    rfl
  | get key =>
    cases hv : c.value? key with
    | some v =>
      rw [serve, get_of_value? hv]
      exact Nat.add_right_comm _ _ _
    | none =>
      rw [serve, get_of_value?_none hv]
      exact (Nat.add_assoc _ _ _).symm
  | contains key => rfl
  | size => rfl
  | clear => rfl

theorem isHit_get_iff {c : FifoCache κ ν} (h : c.keys.Nodup) (key : κ) :
    (Moment.mk c (.get key)).isHit = true ↔ (c.value? key).isSome = true := by
  simp [Moment.isHit, Option.isSome_iff_exists, value?_eq_some_iff h]

/-- A read is a hit just when its key is held with a value. -/
theorem hits_serve {c : FifoCache κ ν} (h : c.keys.Nodup) (op : Operation κ ν) :
    (c.serve op).hits = c.hits + if (Moment.mk c op).isHit then 1 else 0 := by
  cases op with
  | put key value => exact (c.reads_put key value).1
  | get key =>
    have hhit := isHit_get_iff h key
    cases hv : c.value? key with
    | some v =>
      rw [serve, get_of_value? hv, if_pos (hhit.2 (by rw [hv]; rfl))]
      rfl
    | none =>
      have hmiss : ¬(Moment.mk c (.get key)).isHit = true := by simp [hhit, hv]
      rw [serve, get_of_value?_none hv, if_neg hmiss]
      rfl
  | contains key => rfl
  | size => rfl
  | clear => rfl

/-! ## What stays under a key -/

/-- A value stays under its key through an operation that leaves the key. -/
theorem mem_entries_serve {c : FifoCache κ ν} (hc : c.Sound) (op : Operation κ ν) {key : κ} {v : ν}
    (h : (key, some v) ∈ c.entries) (hkey : key ∈ (c.serve op).keys) :
    (key, some v) ∈ (c.serve op).entries := by
  cases op with
  | put key' value =>
    by_cases hheld : key' ∈ c.keys
    · cases hv : c.value? key' with
      | some w => rwa [serve, put_of_value? hv]
      | none =>
        have hne : key ≠ key' := by
          rintro rfl
          rw [(value?_eq_some_iff hc.distinct).2 h] at hv
          cases hv
        rw [serve, put_of_mem hc hheld hv]
        exact (Entries.mem_insert_iff hc.distinct).2 (.inr ⟨h, hne⟩)
    · -- the entry under the key that is left is the one that was there before
      obtain ⟨⟨key, value'⟩, hentry, rfl⟩ := List.mem_map.1 hkey
      have hend := hentry
      rw [serve, entries_put_of_notMem hc hheld] at hend
      have hbefore : (key, value') ∈ c.entries ++ [(key', value)] := List.mem_of_mem_drop hend
      rcases List.mem_append.1 hbefore with hbefore | hnew
      · have hsame := Entries.get?_of_mem hc.distinct hbefore
        rw [Entries.get?_of_mem hc.distinct h, Option.some.injEq] at hsame
        rwa [hsame]
      · obtain ⟨rfl, -⟩ := Prod.mk.inj (List.mem_singleton.1 hnew)
        exact absurd (List.mem_map_of_mem h) hheld
  | get key' =>
    rw [serve, get]
    split <;> exact h
  | contains key' => exact h
  | size => exact h
  | clear => simp [serve, clear, keys, Entries.keys] at hkey

/-- A put under a key without a value stores the value there. -/
theorem mem_entries_put {c : FifoCache κ ν} (hc : c.Sound) {key : κ} (h : c.value? key = none)
    (value : Option ν) : (key, value) ∈ (c.put key value).cache.entries := by
  by_cases hkey : key ∈ c.keys
  · rw [put_of_mem hc hkey h]
    exact (Entries.mem_insert_iff hc.distinct).2 (.inl rfl)
  · obtain ⟨n, hn⟩ : ∃ n, c.capacity = n + 1 := ⟨_, (Nat.succ_pred_eq_of_pos c.capacity_pos).symm⟩
    rw [entries_put_of_notMem hc hkey, hn, List.rtake_concat_succ]
    exact List.mem_append_right _ (List.mem_singleton_self _)

/-! ## Histories -/

theorem after_append (c : FifoCache κ ν) (operations more : List (Operation κ ν)) :
    c.after (operations ++ more) = (c.after operations).after more :=
  List.foldl_append

theorem history_append_singleton (c : FifoCache κ ν) (operations : List (Operation κ ν))
    (op : Operation κ ν) :
    c.history (operations ++ [op]) = c.history operations ++ [⟨c.after operations, op⟩] := by
  induction operations generalizing c with
  | nil => rfl
  | cons op' operations ih => exact congrArg (Moment.mk c op' :: ·) (ih (c.serve op'))

theorem Sound.after {c : FifoCache κ ν} (hc : c.Sound) (operations : List (Operation κ ν)) :
    (c.after operations).Sound := by
  induction operations generalizing c with
  | nil => exact hc
  | cons op operations ih => exact ih (hc.serve op)

theorem capacity_after (c : FifoCache κ ν) (operations : List (Operation κ ν)) :
    (c.after operations).capacity = c.capacity := by
  induction operations generalizing c with
  | nil => rfl
  | cons op operations ih => exact (ih (c.serve op)).trans (c.capacity_serve op)

theorem recentKeys_append_singleton (moments : List (Moment κ ν)) (m : Moment κ ν) :
    recentKeys (moments ++ [m]) =
      if m.isClear then [] else recentKeys moments ++ m.newKey?.toList := by
  rw [recentKeys, List.rtakeWhile_concat]
  cases hclear : m.isClear with
  | true => simp
  | false => cases hkey : m.newKey? <;> simp [recentKeys, hkey]

omit [DecidableEq κ] in
theorem sound_empty {capacity : Nat} (h : 0 < capacity) :
    (empty capacity h : FifoCache κ ν).Sound :=
  ⟨List.nodup_nil, Nat.zero_le _⟩

section Empty
variable {capacity : Nat} (h : 0 < capacity) (operations : List (Operation κ ν))

theorem sound_after : ((empty capacity h).after operations).Sound :=
  (sound_empty h).after operations

/-- A cache holds the keys that came in last. -/
theorem keys_after : ((empty capacity h).after operations).keys =
    (recentKeys ((empty capacity h).history operations)).rtake capacity := by
  induction operations using List.reverseRecOn with
  | nil => exact (List.rtake_nil capacity).symm
  | append_singleton operations op ih =>
    have hserve := keys_serve (sound_after h operations) op
    rw [capacity_after, ih] at hserve
    rw [history_append_singleton, recentKeys_append_singleton, after_append]
    refine hserve.trans ?_
    split
    · exact (List.rtake_nil capacity).symm
    · cases hkey : (Moment.mk ((empty capacity h).after operations) op).newKey? with
      | none =>
        rw [Option.toList_none, List.append_nil, List.append_nil]
        exact rtake_of_length_le (length_rtake _ _ ▸ Nat.min_le_left _ _)
      | some key => exact rtake_rtake_concat _ _ _

/-- Every key that ever came in is held, was evicted or was cleared. -/
theorem evictions_after :
    ((empty capacity h).after operations).evictions + ((empty capacity h).after operations).size +
        (((empty capacity h).history operations).map Moment.cleared).sum =
      (((empty capacity h).history operations).filterMap Moment.newKey?).length := by
  induction operations using List.reverseRecOn with
  | nil => rfl
  | append_singleton operations op ih =>
    have hserve := evictions_serve (sound_after h operations) op
    have hnew (m : Moment κ ν) : [m].filterMap Moment.newKey? = m.newKey?.toList := by
      cases hkey : m.newKey? <;> simp [hkey]
    rw [history_append_singleton, after_append, List.map_append, List.sum_append,
      List.filterMap_append, List.length_append, hnew, List.map_singleton, List.sum_singleton]
    change ((((empty capacity h).after operations).serve op).evictions +
      (((empty capacity h).after operations).serve op).size) + _ = _
    omega

/-- Every read was a hit or a miss. -/
theorem reads_after :
    ((empty capacity h).after operations).hits + ((empty capacity h).after operations).misses =
      ((empty capacity h).history operations).countP Moment.isGet := by
  induction operations using List.reverseRecOn with
  | nil => rfl
  | append_singleton operations op ih =>
    have hserve := reads_serve ((empty capacity h).after operations) op
    rw [ih] at hserve
    rw [history_append_singleton, after_append, List.countP_append, List.countP_singleton]
    exact hserve

/-- The hits are the reads of keys that were held with a value. -/
theorem hits_after : ((empty capacity h).after operations).hits =
    ((empty capacity h).history operations).countP Moment.isHit := by
  induction operations using List.reverseRecOn with
  | nil => rfl
  | append_singleton operations op ih =>
    have hserve := hits_serve (sound_after h operations).distinct op
    rw [ih] at hserve
    rw [history_append_singleton, after_append, List.countP_append, List.countP_singleton]
    exact hserve

end Empty

/-- A value stays under its key for as long as the key is held without a break. -/
theorem mem_entries_after {c : FifoCache κ ν} (hc : c.Sound) {key : κ} {v : ν}
    (h : (key, some v) ∈ c.entries) {operations : List (Operation κ ν)}
    (hheld : ∀ part, part <+: operations → key ∈ (c.after part).keys) :
    (key, some v) ∈ (c.after operations).entries := by
  induction operations using List.reverseRecOn with
  | nil => exact h
  | append_singleton operations op ih =>
    have hbefore := ih fun part hpart => hheld part (hpart.trans (List.prefix_append _ _))
    have hkey := hheld (operations ++ [op]) (List.prefix_rfl)
    rw [after_append] at hkey ⊢
    exact mem_entries_serve (hc.after operations) op hbefore hkey

/-- A cache after any operations. Its keys are distinct and no more than its capacity: those that
came in last since the last clearing. Every key that came in is held, was evicted or was cleared;
every read was a hit, of a key with a value, or a miss. A value that is stored is what every read
and every put under its key gives until the key is evicted or cleared; and a key without a value
gets the next one that is put under it, which moves and evicts nothing. -/
theorem history_of_empty (capacity : Nat) (h : 0 < capacity) (operations : List (Operation κ ν)) :
    let c : FifoCache κ ν := (empty capacity h).after operations
    let moments := (empty capacity h : FifoCache κ ν).history operations
    (c.size ≤ capacity ∧ c.keys.Nodup) ∧
    c.keys = (recentKeys moments).rtake capacity ∧
    c.evictions + c.size + (moments.map Moment.cleared).sum =
      (moments.filterMap Moment.newKey?).length ∧
    (c.hits + c.misses = moments.countP Moment.isGet ∧ c.hits = moments.countP Moment.isHit) ∧
    (∀ key v, (key, some v) ∈ c.entries → ∀ more,
      (∀ part, part <+: more → key ∈ (c.after part).keys) →
        ((c.after more).get key).1 = some v ∧
        ∀ value, ((c.after more).put key value).value = some v) ∧
    ∀ key, (∀ v, (key, some v) ∉ c.entries) → (c.get key).1 = none ∧ ∀ value,
      (c.put key value).value = value ∧ (key, value) ∈ (c.put key value).cache.entries ∧
      (key ∈ c.keys → (c.put key value).cache.keys = c.keys ∧ (c.put key value).evicted = none ∧
        (c.put key value).cache.evictions = c.evictions) := by
  have hc := sound_after h operations
  refine ⟨⟨?_, hc.distinct⟩, keys_after h operations, evictions_after h operations,
    ⟨reads_after h operations, hits_after h operations⟩, ?_, ?_⟩
  · have hfits := hc.fits
    rwa [capacity_after] at hfits
  · intro key v hv more hheld
    have hstays := mem_entries_after hc hv hheld
    have hvalue := (value?_eq_some_iff (hc.after more).distinct).2 hstays
    refine ⟨by rw [get_of_value? hvalue], fun value => ?_⟩
    rw [put_of_value? hvalue]
  · intro key hnone
    have hvalue : ((empty capacity h).after operations).value? key = none := by
      rw [Option.eq_none_iff_forall_ne_some]
      intro v hv
      exact hnone v ((value?_eq_some_iff hc.distinct).1 hv)
    refine ⟨by rw [get_of_value?_none hvalue], fun value => ?_⟩
    refine ⟨put_value hvalue value, mem_entries_put hc hvalue value, fun hkey => ?_⟩
    refine ⟨keys_put_of_mem hc hkey value, ?_⟩
    rw [put_of_mem hc hkey hvalue]
    exact ⟨rfl, rfl⟩

/-- Some operations on a cache for two keys: a key without a value gets one, and goes when a third
key comes in. -/
def crowding : List (Operation Nat Nat) :=
  [.put 1 none, .put 2 (some 20), .get 1, .put 1 (some 10), .get 1, .put 3 (some 30)]

theorem history_of_crowding :
    (0 < 2 ∧ (2, some 20) ∈ ((empty 2 (by decide)).after crowding).entries ∧
      ∀ part, part <+: [.get 2, .put 2 none] →
        2 ∈ (((empty 2 (by decide)).after crowding).after part).keys) ∧
    ((empty 2 (by decide)).after crowding).keys = [2, 3] ∧
    ((empty 2 (by decide)).after crowding).evictions + 2 + 0 = 3 ∧
    ((((empty 2 (by decide)).after crowding).after [.get 2, .put 2 none]).get 2).1 = some 20 := by
  have hheld : ∀ part, part <+: [.get 2, .put 2 none] →
      2 ∈ (((empty 2 (by decide)).after crowding).after part).keys := by
    intro part hpart
    rw [← List.mem_inits] at hpart
    revert part
    decide
  obtain ⟨-, hkeys, hevictions, -, hstays, -⟩ := history_of_empty 2 (by decide) crowding
  exact ⟨⟨by decide, by decide, hheld⟩, hkeys, hevictions, (hstays 2 20 (by decide) _ hheld).1⟩

end FifoCache
end RecordProjection
