/-!
# Entries in order

Values under keys, kept in the order in which the keys first came. A later value of a key takes
the place of the earlier one; only a new key goes to the end.
-/
namespace RecordProjection

/-- Values under keys, in order. The operations below keep the keys distinct. -/
abbrev Entries (κ : Type) (α : Type) := List (κ × α)

namespace Entries
variable {κ α : Type} [DecidableEq κ]

/-- The value under a key. -/
def get? (key : κ) : Entries κ α → Option α
  | [] => none
  | (k, a) :: es => if k = key then some a else get? key es

/-- Put a value under a key: in the key's place if it has one, else at the end. -/
def insert (key : κ) (value : α) : Entries κ α → Entries κ α
  | [] => [(key, value)]
  | (k, a) :: es => if k = key then (k, value) :: es else (k, a) :: insert key value es

/-- The keys, in order. -/
def keys (es : Entries κ α) : List κ := es.map Prod.fst

/-- The entries of a list of pairs, inserted one after the other. -/
def ofList (ps : List (κ × α)) : Entries κ α := ps.foldl (fun es p => insert p.1 p.2 es) []

@[simp] theorem get?_nil (key : κ) : get? key ([] : Entries κ α) = none := rfl

theorem get?_insert (key k : κ) (value : α) (es : Entries κ α) :
    get? k (insert key value es) = if key = k then some value else get? k es := by
  induction es with
  | nil => simp [insert, get?]
  | cons p es ih =>
    obtain ⟨k', a⟩ := p
    by_cases h : k' = key
    · subst h
      by_cases hk : k' = k <;> simp [insert, get?, hk]
    · by_cases hk : k' = k
      · subst hk
        simp [insert, get?, h, Ne.symm h]
      · simp [insert, get?, h, hk, ih]

theorem mem_keys_iff_get? {key : κ} {es : Entries κ α} :
    key ∈ keys es ↔ (get? key es).isSome = true := by
  induction es with
  | nil => simp [keys]
  | cons p es ih =>
    obtain ⟨k, a⟩ := p
    rw [keys, List.map_cons, List.mem_cons, ← keys, ih]
    by_cases h : k = key
    · simp [get?, h]
    · simp [get?, h, Ne.symm h]

/-- Inserting changes no key's place and adds at most the new key, at the end. -/
theorem keys_insert (key : κ) (value : α) (es : Entries κ α) :
    keys (insert key value es) = if key ∈ keys es then keys es else keys es ++ [key] := by
  induction es with
  | nil => simp [insert, keys]
  | cons p es ih =>
    obtain ⟨k, a⟩ := p
    simp only [keys] at ih
    by_cases h : k = key
    · simp [insert, keys, h]
    · by_cases hk : key ∈ es.map Prod.fst
      · simp [insert, keys, h, ih, hk]
      · simp [insert, keys, h, ih, hk, Ne.symm h]

theorem nodup_keys_insert {key : κ} {value : α} {es : Entries κ α} (h : (keys es).Nodup) :
    (keys (insert key value es)).Nodup := by
  rw [keys_insert]
  split
  · exact h
  · next hk =>
    rw [List.nodup_append]
    exact ⟨h, by simp, by rintro a ha b hb rfl; simp_all⟩

end Entries
end RecordProjection
