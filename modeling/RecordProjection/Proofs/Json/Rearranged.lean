import RecordProjection.Proofs.Entries
import RecordProjection.Proofs.Json.Canonical
import Mathlib.Data.List.Forall2

/-!
# Rearranged values

Two values with distinct keys are the same up to the order of the members of mappings, at every
level, just when they are the same with their members sorted, and so, being JSON values, just when
they have the same canonical form.

## Main definitions

* `Value.DistinctKeys` : no mapping in a value has a key twice.
* `Value.Rearranged` : two values are the same up to the order of members at every level.
-/
namespace RecordProjection

/-- No mapping in a value has a key twice. -/
inductive Value.DistinctKeys : Value → Prop
  | scalar {v : Value} (list : ∀ items, v ≠ .list items)
      (mapping : ∀ members, v ≠ .mapping members) : Value.DistinctKeys v
  | list {items : List Value} (each : ∀ v ∈ items, Value.DistinctKeys v) :
      Value.DistinctKeys (.list items)
  | mapping {members : Members} (distinct : (Entries.keys members).Nodup)
      (each : ∀ m ∈ members, Value.DistinctKeys m.2) : Value.DistinctKeys (.mapping members)

theorem Value.DistinctKeys.keys {members : Members} (h : (Value.mapping members).DistinctKeys) :
    (Entries.keys members).Nodup := by
  cases h with
  | scalar _ mapping => exact absurd rfl (mapping members)
  | mapping distinct _ => exact distinct

theorem Value.DistinctKeys.member {members : Members} (h : (Value.mapping members).DistinctKeys) :
    ∀ m ∈ members, m.2.DistinctKeys := by
  cases h with
  | scalar _ mapping => exact absurd rfl (mapping members)
  | mapping _ each => exact each

theorem Value.DistinctKeys.item {items : List Value} (h : (Value.list items).DistinctKeys) :
    ∀ v ∈ items, v.DistinctKeys := by
  cases h with
  | scalar list _ => exact absurd rfl (list items)
  | list each => exact each

/-- What is sorted by a text is in the order of these texts. -/
theorem pairwise_mergeSort_by {α : Type} (key : α → String) (as : List α) :
    (as.mergeSort fun a b => decide (key a ≤ key b)).Pairwise fun a b => key a ≤ key b := by
  have htrans (a b c : α) (hab : decide (key a ≤ key b) = true)
      (hbc : decide (key b ≤ key c) = true) : decide (key a ≤ key c) = true := by
    rw [decide_eq_true_eq] at hab hbc ⊢
    exact String.le_trans hab hbc
  have htotal (a b : α) : (decide (key a ≤ key b) || decide (key b ≤ key a)) = true := by
    rw [Bool.or_eq_true, decide_eq_true_eq, decide_eq_true_eq]
    exact String.le_total (key a) (key b)
  exact (List.pairwise_mergeSort htrans htotal as).imp of_decide_eq_true

namespace Value

open Json

/-- Two values are the same up to the order of the members of mappings, at every level. -/
inductive Rearranged : Value → Value → Prop
  | refl (v : Value) : Rearranged v v
  | list {items items' : List Value} (length : items.length = items'.length)
      (each : ∀ (i : Nat) v w, items[i]? = some v → items'[i]? = some w → Rearranged v w) :
      Rearranged (.list items) (.list items')
  | mapping {members members' : Members}
      (keys : ∀ key, Entries.get? key members = none ↔ Entries.get? key members' = none)
      (values : ∀ key v w, Entries.get? key members = some v → Entries.get? key members' = some w →
        Rearranged v w) :
      Rearranged (.mapping members) (.mapping members')

/-! ## What a value is a rearrangement of -/

/-- Only a mapping is a mapping rearranged: one with the same keys, each with a value rearranged. -/
theorem Rearranged.of_mapping {v : Value} {members' : Members}
    (h : Rearranged v (.mapping members')) : ∃ members, v = .mapping members ∧
      (∀ key, Entries.get? key members' = none → Entries.get? key members = none) ∧
      ∀ key w, Entries.get? key members' = some w →
        ∃ u, Entries.get? key members = some u ∧ Rearranged u w := by
  cases h with
  | refl => exact ⟨members', rfl, fun _ => id, fun _ w hw => ⟨w, hw, .refl w⟩⟩
  | @mapping members _ keys values =>
    refine ⟨members, rfl, fun key => (keys key).2, fun key w hw => ?_⟩
    cases hu : Entries.get? key members with
    | none => simp [(keys key).1 hu] at hw
    | some u => exact ⟨u, rfl, values key u w hu hw⟩

/-- Only a list is a list rearranged: one with the items rearranged in their places. -/
theorem Rearranged.of_list {v : Value} {items' : List Value} (h : Rearranged v (.list items')) :
    ∃ items, v = .list items ∧ List.Forall₂ Rearranged items items' := by
  cases h with
  | refl => exact ⟨items', rfl, List.forall₂_same.2 fun v _ => .refl v⟩
  | @list items _ length each =>
    refine ⟨items, rfl, List.forall₂_iff_get.2 ⟨length, fun i hi hi' => ?_⟩⟩
    exact each i _ _ (List.getElem?_eq_getElem hi) (List.getElem?_eq_getElem hi')

theorem Rearranged.eq_of_text {v : Value} {s : String} (h : Rearranged v (.text s)) :
    v = .text s := by
  cases h
  rfl

theorem Rearranged.eq_of_bool {v : Value} {b : Bool} (h : Rearranged v (.bool b)) :
    v = .bool b := by
  cases h
  rfl

/-! ## Sorted members -/

theorem sortedItems_eq_map (items : List Value) : sortedItems items = items.map sorted := by
  induction items with
  | nil => rfl
  | cons v vs ih => rw [sortedItems, ih, List.map_cons]

theorem sortedMembers_eq_map (members : Members) :
    sortedMembers members = members.map fun m => (m.1, m.2.sorted) := by
  induction members with
  | nil => rfl
  | cons m ms ih => rw [sortedMembers, ih, List.map_cons]

theorem keys_sortedMembers (members : Members) :
    Entries.keys (sortedMembers members) = Entries.keys members := by
  rw [sortedMembers_eq_map, Entries.keys, Entries.keys, List.map_map]
  rfl

theorem perm_sortMembers {α : Type} (members : List (String × α)) :
    (sortMembers members).Perm members :=
  List.mergeSort_perm members _

theorem mem_sortMembers {α : Type} {members : List (String × α)} {m : String × α} :
    m ∈ sortMembers members ↔ m ∈ members :=
  (perm_sortMembers members).mem_iff

theorem nodup_keys_sortMembers {α : Type} {members : Entries String α}
    (h : (Entries.keys members).Nodup) : (Entries.keys (sortMembers members)).Nodup :=
  ((perm_sortMembers members).map Prod.fst).nodup_iff.2 h

theorem pairwise_sortMembers {α : Type} (members : List (String × α)) :
    (sortMembers members).Pairwise fun a b => a.1 ≤ b.1 :=
  pairwise_mergeSort_by Prod.fst members

/-- Members with distinct keys are sorted in one way only. -/
theorem sortMembers_eq_iff {α : Type} {members members' : Entries String α}
    (hkeys : (Entries.keys members).Nodup) :
    sortMembers members = sortMembers members' ↔ members.Perm members' := by
  constructor
  · intro h
    exact (perm_sortMembers members).symm.trans (h ▸ perm_sortMembers members')
  · intro h
    have hperm : (sortMembers members).Perm (sortMembers members') :=
      (perm_sortMembers members).trans (h.trans (perm_sortMembers members').symm)
    refine List.Perm.eq_of_pairwise ?_ (pairwise_sortMembers members)
      (pairwise_sortMembers members') hperm
    intro a b ha hb hab hba
    have ha : a ∈ members := mem_sortMembers.1 ha
    have hb : b ∈ members := h.mem_iff.2 (mem_sortMembers.1 hb)
    rw [Entries.mem_iff_get? hkeys] at ha hb
    have hkey : a.1 = b.1 := String.le_antisymm hab hba
    rw [hkey, hb] at ha
    exact Prod.ext hkey (Option.some.inj ha).symm

/-- Members with distinct keys are the same up to their order when all look-ups agree. -/
theorem perm_iff_get? {α : Type} {members members' : Entries String α}
    (hkeys : (Entries.keys members).Nodup) (hkeys' : (Entries.keys members').Nodup) :
    members.Perm members' ↔ ∀ key, Entries.get? key members = Entries.get? key members' := by
  rw [List.perm_ext_iff_of_nodup (List.Nodup.of_map _ hkeys) (List.Nodup.of_map _ hkeys')]
  constructor
  · intro h key
    refine Option.ext fun a => ?_
    exact (Entries.mem_iff_get? hkeys).symm.trans ((h (key, a)).trans (Entries.mem_iff_get? hkeys'))
  · intro h m
    rw [Entries.mem_iff_get? hkeys, Entries.mem_iff_get? hkeys', h]

/-- What holds of the sorted values of members holds of the members of the sorted mapping. -/
theorem forall_mem_sorted {P : Value → Prop} {members : Members}
    (h : ∀ m ∈ members, P m.2.sorted) : ∀ m ∈ sortMembers (sortedMembers members), P m.2 := by
  intro m hm
  rw [mem_sortMembers, sortedMembers_eq_map] at hm
  obtain ⟨n, hn, rfl⟩ := List.mem_map.1 hm
  exact h n hn

/-! ## Sorted values -/

theorem nodup_keys_sortedMembers {members : Members} (h : (mapping members).DistinctKeys) :
    (Entries.keys (sortedMembers members)).Nodup := by
  rw [keys_sortedMembers]
  exact h.keys

theorem get?_sortedMembers (key : String) (members : Members) :
    Entries.get? key (sortedMembers members) = (Entries.get? key members).map sorted := by
  rw [sortedMembers_eq_map, Entries.get?_map]

/-- Two lists are the same when sorted, when they are so in each place. -/
theorem sorted_list_eq_iff {items items' : List Value} :
    (list items).sorted = (list items').sorted ↔
      ∀ i : Nat, items[i]?.map sorted = items'[i]?.map sorted := by
  simp only [sorted, sortedItems_eq_map, Value.list.injEq, List.ext_getElem?_iff, List.getElem?_map]

/-- Two mappings with distinct keys are the same when sorted, when they are so under each key. -/
theorem sorted_mapping_eq_iff {members members' : Members} (hv : (mapping members).DistinctKeys)
    (hw : (mapping members').DistinctKeys) :
    (mapping members).sorted = (mapping members').sorted ↔
      ∀ key, (Entries.get? key members).map sorted = (Entries.get? key members').map sorted := by
  have hkeys := nodup_keys_sortedMembers hv
  have hkeys' := nodup_keys_sortedMembers hw
  rw [sorted, sorted, Value.mapping.injEq, sortMembers_eq_iff hkeys, perm_iff_get? hkeys hkeys']
  simp only [get?_sortedMembers]

theorem Rearranged.sorted_eq {v w : Value} (h : Rearranged v w) (hv : v.DistinctKeys)
    (hw : w.DistinctKeys) : v.sorted = w.sorted := by
  induction h with
  | refl v => rfl
  | @list items items' length each ih =>
    refine sorted_list_eq_iff.2 fun i => ?_
    cases hi : items[i]? with
    | none =>
      have hi' : items'[i]? = none := by
        rw [List.getElem?_eq_none_iff] at hi ⊢
        omega
      rw [hi']
    | some v =>
      obtain ⟨hlong, -⟩ := List.getElem?_eq_some_iff.1 hi
      have hi' : items'[i]? = some (items'[i]) := List.getElem?_eq_getElem (by omega)
      rw [hi']
      exact congrArg some (ih i v _ hi hi' (hv.item v (List.mem_of_getElem? hi))
        (hw.item _ (List.mem_of_getElem? hi')))
  | @mapping members members' keys values ih =>
    refine (sorted_mapping_eq_iff hv hw).2 fun key => ?_
    cases hkey : Entries.get? key members with
    | none => rw [(keys key).1 hkey]
    | some v =>
      cases hkey' : Entries.get? key members' with
      | none => exact absurd ((keys key).2 hkey') (by simp [hkey])
      | some w =>
        exact congrArg some (ih key v w hkey hkey' (hv.member _ (Entries.mem_of_get? hkey))
          (hw.member _ (Entries.mem_of_get? hkey')))

theorem rearranged_of_sorted_eq {v : Value} (hv : v.DistinctKeys) : ∀ {w : Value},
    w.DistinctKeys → v.sorted = w.sorted → Rearranged v w := by
  induction hv with
  | @scalar v list mapping =>
    intro w _ h
    have hv : v.sorted = v := by
      cases v with
      | list items => exact absurd rfl (list items)
      | mapping members => exact absurd rfl (mapping members)
      | _ => rfl
    rw [hv] at h
    cases w with
    | list items => exact absurd h (list _)
    | mapping members => exact absurd h (mapping _)
    | _ => exact h ▸ .refl _
  | @list items each ih =>
    intro w hw h
    cases w with
    | list items' =>
      have hat := sorted_list_eq_iff.1 h
      have hlength : items.length = items'.length := by
        simpa [sorted, sortedItems_eq_map] using congrArg List.length (Value.list.inj h)
      refine .list hlength fun i v w hi hi' => ?_
      have hsame := hat i
      rw [hi, hi', Option.map_some, Option.map_some, Option.some.injEq] at hsame
      exact ih v (List.mem_of_getElem? hi) (hw.item w (List.mem_of_getElem? hi')) hsame
    | _ => simp [sorted] at h
  | @mapping members distinct each ih =>
    intro w hw h
    cases w with
    | mapping members' =>
      have hat := (sorted_mapping_eq_iff (.mapping distinct each) hw).1 h
      refine .mapping (fun key => ?_) fun key v w hkey hkey' => ?_
      · rw [← Option.map_eq_none_iff, hat, Option.map_eq_none_iff]
      · have hsame := hat key
        rw [hkey, hkey', Option.map_some, Option.map_some, Option.some.injEq] at hsame
        exact ih _ (Entries.mem_of_get? hkey) (hw.member _ (Entries.mem_of_get? hkey')) hsame
    | _ => simp [sorted] at h

/-- Values with distinct keys are the same when they are sorted just when one is the other
rearranged. -/
theorem sorted_eq_iff {v w : Value} (hv : v.DistinctKeys) (hw : w.DistinctKeys) :
    v.sorted = w.sorted ↔ Rearranged v w :=
  ⟨rearranged_of_sorted_eq hv hw, fun h => h.sorted_eq hv hw⟩

/-- Sorting only rearranges. -/
theorem DistinctKeys.rearranged_sorted {v : Value} (hv : v.DistinctKeys) :
    Rearranged v.sorted v := by
  induction hv with
  | @scalar v list mapping =>
    cases v with
    | list items => exact absurd rfl (list items)
    | mapping members => exact absurd rfl (mapping members)
    | _ => exact .refl _
  | @list items each ih =>
    rw [sorted, sortedItems_eq_map]
    refine .list (List.length_map _) fun i v w hi hi' => ?_
    rw [List.getElem?_map, hi', Option.map_some, Option.some.injEq] at hi
    exact hi ▸ ih w (List.mem_of_getElem? hi')
  | @mapping members distinct each ih =>
    have hkeys := nodup_keys_sortedMembers (.mapping distinct each)
    have hget (key : String) : Entries.get? key (sortMembers (sortedMembers members)) =
        (Entries.get? key members).map sorted := by
      rw [← get?_sortedMembers]
      exact (perm_iff_get? (nodup_keys_sortMembers hkeys) hkeys).1 (perm_sortMembers _) key
    rw [sorted]
    refine .mapping (fun key => ?_) fun key v w hkey hkey' => ?_
    · rw [hget, Option.map_eq_none_iff]
    · rw [hget, hkey', Option.map_some, Option.some.injEq] at hkey
      exact hkey ▸ ih _ (Entries.mem_of_get? hkey')

/-! ## The canonical form -/

theorem IsJson.sorted {v : Value} (h : v.IsJson) : v.sorted.IsJson := by
  induction h with
  | @list items _ ih =>
    rw [Value.sorted, sortedItems_eq_map]
    exact .list (by simpa using ih)
  | @mapping members _ ih =>
    rw [Value.sorted]
    exact .mapping (forall_mem_sorted ih)
  | null => exact .null
  | bool b => exact .bool b
  | int n => exact .int n
  | text s => exact .text s

/-- Two JSON values have one canonical form just when one is the other rearranged. -/
theorem canonical_eq_iff {v w : Value} (hv : v.IsJson) (hw : w.IsJson) (hv' : v.DistinctKeys)
    (hw' : w.DistinctKeys) : v.canonical = w.canonical ↔ v.Rearranged w := by
  rw [← sorted_eq_iff hv' hw', canonical, canonical, String.ofList_inj, canonicalChars_eq,
    canonicalChars_eq]
  exact ⟨hv.sorted.orderedChars_inj hw.sorted, congrArg orderedChars⟩

end Value
end RecordProjection
