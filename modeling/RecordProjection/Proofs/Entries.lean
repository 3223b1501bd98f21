import RecordProjection.Entries
import Mathlib.Data.List.Induction
import Mathlib.Data.List.Nodup

/-!
# Entries put in one after the other

Looking up what was put in, and the entries of a list of pairs: each key once, in the place of its
first pair and with the value of its last. Pairs with distinct keys are their own entries, and the
entries of two lists of pairs are those of the first updated by those of the second.
-/
namespace RecordProjection.Entries
variable {κ α : Type} [DecidableEq κ]

theorem mem_of_get? {key : κ} {a : α} {es : Entries κ α} (h : get? key es = some a) :
    (key, a) ∈ es := by
  induction es with
  | nil => simp at h
  | cons p es ih =>
    obtain ⟨k, b⟩ := p
    by_cases hk : k = key
    · subst hk
      simp only [get?, if_pos, Option.some.injEq] at h
      rw [h]
      exact List.mem_cons_self
    · rw [get?, if_neg hk] at h
      exact List.mem_cons_of_mem _ (ih h)

/-- Inserting adds one entry at most. -/
theorem mem_of_mem_insert {key : κ} {a : α} {es : Entries κ α} {p : κ × α}
    (h : p ∈ insert key a es) : p = (key, a) ∨ p ∈ es := by
  induction es with
  | nil => exact .inl (List.mem_singleton.1 h)
  | cons q es ih =>
    obtain ⟨k, b⟩ := q
    by_cases hk : k = key
    · rw [insert, if_pos hk, hk] at h
      rcases List.mem_cons.1 h with rfl | h
      · exact .inl rfl
      · exact .inr (List.mem_cons_of_mem _ h)
    · rw [insert, if_neg hk] at h
      rcases List.mem_cons.1 h with rfl | h
      · exact .inr List.mem_cons_self
      · exact (ih h).imp_right (List.mem_cons_of_mem _)

theorem get?_of_mem {key : κ} {a : α} {es : Entries κ α} (hes : (keys es).Nodup)
    (h : (key, a) ∈ es) : get? key es = some a := by
  induction es with
  | nil => exact absurd h List.not_mem_nil
  | cons p es ih =>
    obtain ⟨k, b⟩ := p
    obtain ⟨hk, hes⟩ := List.nodup_cons.1 hes
    rcases List.mem_cons.1 h with heq | hmem
    · obtain ⟨rfl, rfl⟩ := Prod.mk.inj heq
      rw [get?, if_pos rfl]
    · have hne : k ≠ key := fun heq => hk (List.mem_map.2 ⟨_, hmem, heq.symm⟩)
      rw [get?, if_neg hne, ih hes hmem]

/-- Putting in what is there already changes nothing. -/
theorem insert_of_get? {key : κ} {a : α} {es : Entries κ α} (h : get? key es = some a) :
    insert key a es = es := by
  induction es with
  | nil => simp at h
  | cons p es ih =>
    obtain ⟨k, b⟩ := p
    by_cases hk : k = key
    · rw [get?, if_pos hk, Option.some.injEq] at h
      rw [insert, if_pos hk, h]
    · rw [get?, if_neg hk] at h
      rw [insert, if_neg hk, ih h]

theorem get?_eq_none_iff {key : κ} {es : Entries κ α} : get? key es = none ↔ key ∉ keys es := by
  rw [mem_keys_iff_get?]
  simp

/-- What a function gives for the values is found under the same keys. -/
theorem get?_map {β : Type} (f : α → β) (key : κ) (es : Entries κ α) :
    get? key (es.map fun e => (e.1, f e.2)) = (get? key es).map f := by
  induction es with
  | nil => rfl
  | cons p es ih =>
    obtain ⟨k, a⟩ := p
    by_cases h : k = key
    · simp [get?, h]
    · simp [get?, h, ih]

/-! ## Items with names of their own -/

section Names
variable {name : α → κ} {as bs : List α}

/-- What has a name of its own is found by it. -/
theorem find?_of_nodup (h : (as.map name).Nodup) {a : α} (ha : a ∈ as) :
    as.find? (fun b => name b == name a) = some a := by
  cases hfound : as.find? (fun b => name b == name a) with
  | none => exact absurd (List.find?_eq_none.1 hfound a ha) (by simp)
  | some b =>
    have hname : name b = name a := by simpa using List.find?_some hfound
    rw [List.inj_on_of_nodup_map h (List.mem_of_find?_eq_some hfound) ha hname]

/-- The order of items with names of their own is of no account to finding them. -/
theorem find?_of_perm (h : (as.map name).Nodup) (hperm : as.Perm bs) (key : κ) :
    as.find? (fun a => name a == key) = bs.find? (fun a => name a == key) := by
  cases hfound : bs.find? (fun a => name a == key) with
  | none =>
    rw [List.find?_eq_none] at hfound ⊢
    intro a ha
    exact hfound a (hperm.mem_iff.1 ha)
  | some b =>
    obtain rfl : name b = key := by simpa using List.find?_some hfound
    exact find?_of_nodup h (hperm.mem_iff.2 (List.mem_of_find?_eq_some hfound))

end Names

/-! ## The entries of a list of pairs -/

theorem insert_of_notMem {key : κ} {es : Entries κ α} (h : key ∉ keys es) (value : α) :
    insert key value es = es ++ [(key, value)] := by
  induction es with
  | nil => rfl
  | cons p es ih =>
    obtain ⟨k, b⟩ := p
    obtain ⟨hne, h⟩ := not_or.1 (List.mem_cons.not.1 h)
    rw [insert, if_neg (Ne.symm hne), ih h, List.cons_append]

theorem insert_map {β : Type} (f : α → β) (key : κ) (value : α) (es : Entries κ α) :
    insert key (f value) (es.map fun e => (e.1, f e.2)) =
      (insert key value es).map fun e => (e.1, f e.2) := by
  induction es with
  | nil => rfl
  | cons p es ih =>
    obtain ⟨k, a⟩ := p
    by_cases h : k = key
    · simp [insert, h]
    · simp [insert, h, ih]

/-- What a function gives for the values of pairs has their entries. -/
theorem ofList_map {β : Type} (f : α → β) (ps : List (κ × α)) :
    ofList (ps.map fun p => (p.1, f p.2)) = (ofList ps).map fun e => (e.1, f e.2) := by
  have hfold (es : Entries κ α) :
      (ps.map fun p => (p.1, f p.2)).foldl (fun es p => insert p.1 p.2 es)
        (es.map fun e => (e.1, f e.2)) =
      (ps.foldl (fun es p => insert p.1 p.2 es) es).map fun e => (e.1, f e.2) := by
    induction ps generalizing es with
    | nil => rfl
    | cons p ps ih =>
      simp only [List.map_cons, List.foldl_cons, insert_map, ih]
  exact hfold []

omit [DecidableEq κ] in
theorem notMem_keys_of_nodup {es ps : Entries κ α} {p : κ × α}
    (h : (keys (es ++ p :: ps)).Nodup) : p.1 ∉ keys es := by
  rw [keys, List.map_append, List.map_cons, List.nodup_append] at h
  exact fun hmem => h.2.2 p.1 hmem p.1 List.mem_cons_self rfl

theorem foldl_insert_eq_append {es ps : Entries κ α} (h : (keys (es ++ ps)).Nodup) :
    ps.foldl (fun es p => insert p.1 p.2 es) es = es ++ ps := by
  induction ps generalizing es with
  | nil => simp
  | cons p ps ih =>
    rw [List.foldl_cons, insert_of_notMem (notMem_keys_of_nodup h), ih (by simpa using h)]
    simp

/-- Pairs with distinct keys are their own entries. -/
theorem ofList_eq_self {ps : Entries κ α} (h : (keys ps).Nodup) : ofList ps = ps := by
  rw [ofList, foldl_insert_eq_append (by simpa using h), List.nil_append]

theorem nodup_keys_foldl_insert {es : Entries κ α} (ps : List (κ × α)) (h : (keys es).Nodup) :
    (keys (ps.foldl (fun es p => insert p.1 p.2 es) es)).Nodup := by
  induction ps generalizing es with
  | nil => exact h
  | cons p ps ih => exact ih (nodup_keys_insert h)

theorem nodup_keys_ofList (ps : List (κ × α)) : (keys (ofList ps)).Nodup :=
  nodup_keys_foldl_insert ps List.nodup_nil

theorem mem_of_mem_foldl_insert {es : Entries κ α} {ps : List (κ × α)} {p : κ × α}
    (h : p ∈ ps.foldl (fun es p => insert p.1 p.2 es) es) : p ∈ es ∨ p ∈ ps := by
  induction ps generalizing es with
  | nil => exact .inl h
  | cons q ps ih =>
    rcases ih h with h | h
    · rcases mem_of_mem_insert h with rfl | h
      · exact .inr List.mem_cons_self
      · exact .inl h
    · exact .inr (List.mem_cons_of_mem _ h)

/-- Every entry is one of the pairs. -/
theorem mem_of_mem_ofList {ps : List (κ × α)} {p : κ × α} (h : p ∈ ofList ps) : p ∈ ps :=
  (mem_of_mem_foldl_insert h).resolve_left List.not_mem_nil

theorem ofList_append_singleton (ps : List (κ × α)) (p : κ × α) :
    ofList (ps ++ [p]) = insert p.1 p.2 (ofList ps) := by
  simp [ofList, List.foldl_append]

theorem mem_keys_insert {key k : κ} {a : α} {es : Entries κ α} :
    k ∈ keys (insert key a es) ↔ k = key ∨ k ∈ keys es := by
  rw [keys_insert]
  by_cases hkey : key ∈ keys es
  · rw [if_pos hkey]
    refine ⟨.inr, ?_⟩
    rintro (rfl | h)
    · exact hkey
    · exact h
  · rw [if_neg hkey, List.mem_append, List.mem_singleton, or_comm]

theorem mem_keys_foldl_insert {key : κ} {es : Entries κ α} {ps : List (κ × α)} :
    key ∈ keys (ps.foldl (fun es p => insert p.1 p.2 es) es) ↔ key ∈ keys es ∨ key ∈ keys ps := by
  induction ps generalizing es with
  | nil => simp [keys]
  | cons p ps ih =>
    have hkeys : key ∈ keys (p :: ps) ↔ key = p.1 ∨ key ∈ keys ps := List.mem_cons
    rw [List.foldl_cons, ih, mem_keys_insert, hkeys, or_left_comm, or_assoc]

/-- Pairs that agree on the values of their keys are all entries. -/
theorem mem_ofList_iff {ps : List (κ × α)} (h : ∀ p ∈ ps, ∀ q ∈ ps, p.1 = q.1 → p = q)
    {p : κ × α} : p ∈ ofList ps ↔ p ∈ ps := by
  refine ⟨mem_of_mem_ofList, ?_⟩
  intro hp
  have hkeys : p.1 ∈ keys (ofList ps) :=
    mem_keys_foldl_insert.2 (.inr (List.mem_map_of_mem hp))
  obtain ⟨q, hq, hkey⟩ := List.mem_map.1 hkeys
  rw [h p hp q (mem_of_mem_ofList hq) hkey.symm]
  exact hq

/-! ## Updating entries -/

omit [DecidableEq κ] in
theorem keys_append (es fs : Entries κ α) : keys (es ++ fs) = keys es ++ keys fs :=
  List.map_append

theorem insert_insert_self (key : κ) (a b : α) (es : Entries κ α) :
    insert key a (insert key b es) = insert key a es := by
  induction es with
  | nil => simp [insert]
  | cons p es ih =>
    obtain ⟨k, c⟩ := p
    by_cases h : k = key
    · simp [insert, h]
    · simp [insert, h, ih]

/-- A key that has its place keeps it, whatever other key is put in. -/
theorem insert_comm_of_mem {key k : κ} {es : Entries κ α} (h : key ∈ keys es) (hne : k ≠ key)
    (a b : α) : insert key a (insert k b es) = insert k b (insert key a es) := by
  induction es with
  | nil => simp [keys] at h
  | cons p es ih =>
    obtain ⟨k', c⟩ := p
    by_cases hkey : k' = key
    · simp [insert, hkey, Ne.symm hne]
    · have hmem : key ∈ keys es := by simpa [keys, Ne.symm hkey] using h
      by_cases hk : k' = k
      · simp [insert, hk, hne]
      · simp [insert, hkey, hk, ih hmem]

theorem insert_foldl_insert {key : κ} {es : Entries κ α} (ps : List (κ × α)) (h : key ∈ keys es)
    (hps : key ∉ keys ps) (a : α) :
    insert key a (ps.foldl (fun es p => insert p.1 p.2 es) es) =
      ps.foldl (fun es p => insert p.1 p.2 es) (insert key a es) := by
  induction ps generalizing es with
  | nil => rfl
  | cons p ps ih =>
    obtain ⟨hne, hps⟩ := not_or.1 (List.mem_cons.not.1 hps)
    rw [List.foldl_cons, List.foldl_cons, ← insert_comm_of_mem h (Ne.symm hne)]
    exact ih (mem_keys_insert.2 (.inr h)) hps

/-- Putting in entries one after the other, and then one more, is putting in all of them. -/
theorem foldl_insert_insert {ps : Entries κ α} (hps : (keys ps).Nodup) (key : κ) (a : α)
    (es : Entries κ α) : (insert key a ps).foldl (fun es p => insert p.1 p.2 es) es =
      insert key a (ps.foldl (fun es p => insert p.1 p.2 es) es) := by
  induction ps generalizing es with
  | nil => rfl
  | cons p ps ih =>
    obtain ⟨k, b⟩ := p
    obtain ⟨hk, hps⟩ := List.nodup_cons.1 hps
    by_cases h : k = key
    · subst h
      have hplace : k ∈ keys (insert k b es) := mem_keys_insert.2 (.inl rfl)
      rw [insert, if_pos rfl, List.foldl_cons, List.foldl_cons, insert_foldl_insert ps hplace hk,
        insert_insert_self]
    · rw [insert, if_neg h, List.foldl_cons, List.foldl_cons, ih hps]

/-- Putting in the entries of a list of pairs is putting in the pairs. -/
theorem foldl_insert_ofList (ps : List (κ × α)) (es : Entries κ α) :
    (ofList ps).foldl (fun es p => insert p.1 p.2 es) es =
      ps.foldl (fun es p => insert p.1 p.2 es) es := by
  induction ps using List.reverseRecOn with
  | nil => rfl
  | append_singleton ps p ih =>
    rw [ofList_append_singleton, foldl_insert_insert (nodup_keys_ofList ps), ih, List.foldl_append]
    rfl

/-- The entries of two lists of pairs are those of the first, with those of the second put in. -/
theorem ofList_append (ps qs : List (κ × α)) :
    ofList (ps ++ qs) = (ofList qs).foldl (fun es p => insert p.1 p.2 es) (ofList ps) := by
  rw [foldl_insert_ofList, ofList, List.foldl_append, ← ofList]

/-- The keys of a list of pairs stand in the order of their first pairs. -/
theorem keys_ofList (ps : List (κ × α)) : keys (ofList ps) = (keys ps).eraseDups := by
  induction ps using List.reverseRecOn with
  | nil => rfl
  | append_singleton ps p ih =>
    have hsingle : keys [p] = [p.1] := rfl
    rw [ofList_append_singleton, keys_insert, ih, keys_append, hsingle, List.eraseDups_append]
    by_cases h : p.1 ∈ keys ps
    · simp [h, List.removeAll]
    · simp [h, List.removeAll, List.eraseDups_cons]

theorem mem_iff_get? {es : Entries κ α} (h : (keys es).Nodup) {p : κ × α} :
    p ∈ es ↔ get? p.1 es = some p.2 :=
  ⟨get?_of_mem h, mem_of_get?⟩

/-- An entry that is put in takes the place of what was there under its key. -/
theorem mem_insert_iff {key : κ} {a : α} {es : Entries κ α} (h : (keys es).Nodup) {p : κ × α} :
    p ∈ insert key a es ↔ p = (key, a) ∨ p ∈ es ∧ p.1 ≠ key := by
  rw [mem_iff_get? (nodup_keys_insert h), get?_insert, mem_iff_get? h]
  by_cases hkey : key = p.1
  · simp [hkey, Prod.ext_iff, eq_comm]
  · simp [hkey, Prod.ext_iff, Ne.symm hkey]

/-- The entry of a key is the last pair with the key. -/
theorem mem_ofList_iff_last {ps : List (κ × α)} {p : κ × α} : p ∈ ofList ps ↔
    ∃ before after, ps = before ++ p :: after ∧ p.1 ∉ keys after := by
  induction ps using List.reverseRecOn with
  | nil => simp [ofList]
  | append_singleton ps q ih =>
    rw [ofList_append_singleton, mem_insert_iff (nodup_keys_ofList ps), ih]
    constructor
    · rintro (rfl | ⟨⟨before, after, rfl, hafter⟩, hne⟩)
      · exact ⟨ps, [], rfl, List.not_mem_nil⟩
      · refine ⟨before, after ++ [q], by simp, ?_⟩
        rw [keys_append, List.mem_append, not_or]
        exact ⟨hafter, fun h => hne (List.mem_singleton.1 h)⟩
    · rintro ⟨before, after, hps, hafter⟩
      rcases List.eq_nil_or_concat after with rfl | ⟨after, q', rfl⟩
      · obtain ⟨-, hq⟩ := List.append_inj' hps rfl
        exact .inl (List.cons.inj hq).1.symm
      · have hsplit : ps ++ [q] = (before ++ p :: after) ++ [q'] := by simpa using hps
        obtain ⟨rfl, hq⟩ := List.append_inj' hsplit rfl
        obtain rfl : q = q' := (List.cons.inj hq).1
        rw [List.concat_eq_append, keys_append, List.mem_append, not_or] at hafter
        exact .inr ⟨⟨before, after, rfl, hafter.1⟩, fun h => hafter.2 (List.mem_singleton.2 h)⟩
end RecordProjection.Entries
