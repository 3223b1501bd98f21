import RecordProjection.Proofs.Json.Contents
import RecordProjection.Proofs.Record.Conformance

/-!
# What records are made of

A record is made of parts of the value that it was projected from, and of dates, moments and texts.
Projected from a JSON value that was read from a text it can always be printed.

## Main definitions

* `Value.RecordedAs` : values that are made of one kind of parts have records made of another.
-/
namespace RecordProjection

/-! ## Unflattening -/

section Unflattening
variable {isLeaf : Value → Bool} (hmapping : ∀ members, isLeaf (.mapping members) = false)
include hmapping

/-- Placing a value brings nothing into a mapping but that value. -/
theorem Entries.built_of_mem_place {value : Value} (hvalue : value.Built isLeaf)
    (path : List String) {members : Members} (h : ∀ m ∈ members, m.2.Built isLeaf) :
    ∀ m ∈ Entries.place value path members, m.2.Built isLeaf := by
  fun_induction Entries.place value path members with
  | case1 members => exact h
  | case2 key members =>
    intro m hm
    rcases Entries.mem_of_mem_insert hm with rfl | hm
    · exact hvalue
    · exact h m hm
  | case3 key path members _ ih =>
    have hinner : ∀ m ∈ Value.membersD (Entries.get? key members), m.2.Built isLeaf := by
      cases hv : Entries.get? key members with
      | none => simp [Value.membersD]
      | some v =>
        have hv := h _ (Entries.mem_of_get? hv)
        cases v with
        | mapping inner => exact Value.Built.of_mem_mapping hmapping hv
        | _ => simp [Value.membersD]
    intro m hm
    rcases Entries.mem_of_mem_insert hm with rfl | hm
    · exact .mapping (ih hinner)
    · exact h m hm

theorem Joiner.built_unflatten (j : Joiner) {v : Value} (h : v.Built isLeaf) :
    (j.unflatten v).Built isLeaf := by
  cases v with
  | mapping members =>
    have hmembers := Value.Built.of_mem_mapping hmapping h
    refine .mapping ?_
    rw [unflattenMembers]
    split
    · exact hmembers
    · -- every step places a value of the flat payload
      refine List.foldlRecOn (motive := fun result : Members => ∀ m ∈ result, m.2.Built isLeaf)
        members _ (by simp) ?_
      intro result hresult m hm
      exact Entries.built_of_mem_place hmapping (hmembers m hm) _ hresult
  | _ => exact h

theorem Descriptor.built_unflattened {d : Descriptor} {joiner : Option Joiner} {raw v : Value}
    (hraw : raw.Built isLeaf) (h : d.unflattened joiner raw = .ok v) : v.Built isLeaf := by
  rw [unflattened.eq_def] at h
  split at h
  · split at h
    · obtain rfl := Except.ok.inj h
      exact Joiner.built_unflatten hmapping _ hraw
    · simp at h
    · exact Except.ok.inj h ▸ hraw
  · exact Except.ok.inj h ▸ hraw

end Unflattening

/-! ## Projecting -/

namespace Value

/-- A kind of parts that takes in another kind, and what coercions give. -/
structure RecordedAs (isLeaf isOut : Value → Bool) : Prop where
  list : ∀ items, isLeaf (.list items) = false
  mapping : ∀ members, isLeaf (.mapping members) = false
  kept : ∀ v, isLeaf v = true → isOut v = true
  null : isOut .null = true
  date : ∀ d, isOut (.date d) = true
  moment : ∀ m, isOut (.moment m) = true
  text : ∀ s, isOut (.text s) = true

theorem recordedAs_printable : RecordedAs isJsonScalar isPrintableScalar where
  list _ := rfl
  mapping _ := rfl
  kept _ := isPrintableScalar_of_isJsonScalar
  null := rfl
  date _ := rfl
  moment _ := rfl
  text _ := rfl

/-- What was within the limit on digits stays within it. -/
theorem recordedAs_printed : RecordedAs isReadScalar isPrintedScalar where
  list _ := rfl
  mapping _ := rfl
  kept _ := isPrintedScalar_of_isReadScalar
  null := rfl
  date _ := rfl
  moment _ := rfl
  text _ := rfl

section Recorded
variable {isLeaf isOut : Value → Bool}

theorem built_of_scalarConforms (hkinds : RecordedAs isLeaf isOut) {type : String} {v w : Value}
    (hv : v.Built isLeaf) (h : v.ScalarConforms type w) : w.Built isOut := by
  rw [ScalarConforms] at h
  split at h
  · rcases h with rfl | ⟨d, rfl⟩
    · exact .leaf hkinds.null
    · exact .leaf (hkinds.date d)
  · split at h
    · rcases h with rfl | ⟨m, rfl⟩
      · exact .leaf hkinds.null
      · exact .leaf (hkinds.moment m)
    · split at h
      · rcases h with rfl | ⟨s, rfl, -⟩
        · exact .leaf hkinds.null
        · exact .leaf (hkinds.text s)
      · rw [h]
        exact hv.mono hkinds.kept

theorem exists_mem_zip_of_mem {items outs : List Value} (hlength : outs.length = items.length)
    {w : Value} (hw : w ∈ outs) : ∃ v ∈ items, (v, w) ∈ items.zip outs := by
  have hmap : (items.zip outs).map Prod.snd = outs := List.map_snd_zip (Nat.le_of_eq hlength)
  rw [← hmap] at hw
  obtain ⟨⟨v, w⟩, hmem, rfl⟩ := List.mem_map.1 hw
  exact ⟨v, (List.of_mem_zip hmem).1, hmem⟩

/-- The items of a list that conform one by one are made of what each of them is made of. -/
theorem built_list_of_zip {R : Value → Value → Prop} {items outs : List Value}
    (hlength : outs.length = items.length) (hR : ∀ p ∈ items.zip outs, R p.1 p.2)
    (hbuilt : ∀ v ∈ items, ∀ w, R v w → w.Built isOut) : (list outs).Built isOut := by
  refine .list ?_
  intro w hw
  obtain ⟨v, hv, hmem⟩ := exists_mem_zip_of_mem hlength hw
  exact hbuilt v hv w (hR _ hmem)

end Recorded
end Value

open Value in
/-- A record is made of parts of its value, and of what coercions give. -/
theorem Descriptor.built_of_conforms {isLeaf isOut : Value → Bool}
    (hkinds : RecordedAs isLeaf isOut) (d : Descriptor) : ∀ v w, d.Conforms v w →
    v.Built isLeaf → w.Built isOut := by
  induction d using Descriptor.induction with
  | step d ih =>
    intro v w h hv
    have hfield (f : ResolvedField) (hf : f ∈ d.fields) (u x : Value) (hu : u.Built isLeaf)
        (h : f.Conforms u x) : x.Built isOut := by
      cases h with
      | replaced => exact .list (by simp)
      | scalars _ _ hlength heach =>
        refine built_list_of_zip hlength heach fun u hu' x hx => ?_
        exact built_of_scalarConforms hkinds (Built.of_mem_list hkinds.list hu u hu') hx
      | scalar _ _ hconforms => exact built_of_scalarConforms hkinds hu hconforms
      | records hnested _ hlength heach =>
        refine built_list_of_zip hlength heach fun u hu' x hx => ?_
        exact ih f hf _ hnested u x hx (Built.of_mem_list hkinds.list hu u hu')
      | nothing => exact .leaf hkinds.null
      | inner hnested _ hconforms => exact ih f hf _ hnested _ _ hconforms hu
    cases h with
    | @record _ members entries hkeys hdistinct hvalues =>
      refine .mapping ?_
      intro m hm
      have hkey : m.1 ∈ (d.fields.filter (ResolvedField.isIn members)).map ResolvedField.key := by
        rw [← hkeys]
        exact List.mem_map_of_mem hm
      obtain ⟨f, hf, hfkey⟩ := List.mem_map.1 hkey
      obtain ⟨hf, hpresent⟩ := List.mem_filter.1 hf
      obtain ⟨u, hu⟩ := Option.isSome_iff_exists.1 hpresent
      have hvalue := Entries.get?_of_mem hdistinct (show (f.key, m.2) ∈ entries from hfkey ▸ hm)
      exact hfield f hf u m.2 (Built.of_mem_mapping hkinds.mapping hv _ (Entries.mem_of_get? hu))
        (hvalues f hf u m.2 hu hvalue)

end RecordProjection
