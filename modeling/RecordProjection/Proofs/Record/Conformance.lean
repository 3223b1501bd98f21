import RecordProjection.Proofs.Descriptor.Levels
import RecordProjection.Proofs.Record.Coercion
import RecordProjection.Proofs.Record.Walk

/-!
# Records conform to their descriptors

A descriptor is the type of the records that are projected along it: a record has the keys of the
fields that were there, in the order of the descriptor and each of them once, and under each key a
value of the kind that the field asks for.

## Main definitions

* `Descriptor.Conforms` : a value is a record of a descriptor, projected from another value.
-/
namespace RecordProjection

mutual

/-- A value is a record of a descriptor, projected from another value. -/
inductive Descriptor.Conforms : Descriptor → Value → Value → Prop
  | record {d : Descriptor} {members entries : Members}
      (keys : Entries.keys entries =
        (d.fields.filter (ResolvedField.isIn members)).map ResolvedField.key)
      (distinct : (Entries.keys entries).Nodup)
      (values : ∀ f ∈ d.fields, ∀ v w, Entries.get? f.source.name members = some v →
        Entries.get? f.key entries = some w → ResolvedField.Conforms f v w) :
      Descriptor.Conforms d (.mapping members) (.mapping entries)

/-- A value is what a field gives for another value. -/
inductive ResolvedField.Conforms : ResolvedField → Value → Value → Prop
  | replaced {f : ResolvedField} {v : Value} (isList : f.source.isList = true)
      (other : ∀ items, v ≠ .list items) : ResolvedField.Conforms f v (.list [])
  | scalars {f : ResolvedField} {items outs : List Value} (plain : f.nested = none)
      (isList : f.source.isList = true) (length : outs.length = items.length)
      (each : ∀ p ∈ items.zip outs, p.1.ScalarConforms f.source.type p.2) :
      ResolvedField.Conforms f (.list items) (.list outs)
  | scalar {f : ResolvedField} {v w : Value} (plain : f.nested = none)
      (single : f.source.isList = false) (conforms : v.ScalarConforms f.source.type w) :
      ResolvedField.Conforms f v w
  | records {f : ResolvedField} {n : Descriptor} {items outs : List Value}
      (nested : f.nested = some n) (isList : f.source.isList = true)
      (length : outs.length = items.length)
      (each : ∀ p ∈ items.zip outs, Descriptor.Conforms n p.1 p.2) :
      ResolvedField.Conforms f (.list items) (.list outs)
  | nothing {f : ResolvedField} {n : Descriptor} (nested : f.nested = some n)
      (single : f.source.isList = false) : ResolvedField.Conforms f .null .null
  | inner {f : ResolvedField} {n : Descriptor} {members entries : Members}
      (nested : f.nested = some n) (single : f.source.isList = false)
      (conforms : Descriptor.Conforms n (.mapping members) (.mapping entries)) :
      ResolvedField.Conforms f (.mapping members) (.mapping entries)

end

/-- A record is projected from a mapping. -/
theorem Descriptor.Conforms.mapping {d : Descriptor} {v w : Value} (h : d.Conforms v w) :
    ∃ members entries, v = .mapping members ∧ w = .mapping entries := by
  cases h with
  | record => exact ⟨_, _, rfl, rfl⟩

theorem forall_mem_zip_of_forall₂ {R : Value → Value → Prop} {items outs : List Value}
    (h : List.Forall₂ R items outs) : ∀ p ∈ items.zip outs, R p.1 p.2 :=
  fun _ hp => List.forall₂_zip h hp

namespace ResolvedField
variable {f : ResolvedField} {v w : Value}

theorem conforms_of_readPlain (hf : f.nested = none) (h : readPlain f.source v = .ok w) :
    f.Conforms v w := by
  rcases readPlain_cases h with ⟨hl, h⟩ | ⟨hl, hv, rfl⟩ | ⟨items, outs, hl, rfl, rfl, houts⟩
  · exact .scalar hf hl (scalarConforms_of_readScalar h)
  · exact .replaced hl hv
  · have hall : List.Forall₂ (Value.ScalarConforms f.source.type) items outs :=
      houts.imp fun _ _ => scalarConforms_of_readScalar
    exact .scalars hf hl hall.length_eq.symm (forall_mem_zip_of_forall₂ hall)

theorem conforms_of_readNested {n : Descriptor} {model : String} {l : Location}
    (hf : f.nested = some n) (hn : ∀ u l out, n.project u l = .ok out → n.Conforms u out)
    (h : readNested model n.model f.source n.project v l = .ok w) : f.Conforms v w := by
  rcases readNested_cases h with ⟨hl, rfl, rfl⟩ | ⟨members, hl, rfl, hout⟩ | ⟨hl, hv, rfl⟩ |
    ⟨items, outs, hl, rfl, rfl, houts⟩
  · exact .nothing hf hl
  · have hconforms := hn _ _ _ hout
    obtain ⟨_, entries, -, rfl⟩ := hconforms.mapping
    exact .inner hf hl hconforms
  · exact .replaced hl hv
  · have hall : List.Forall₂ n.Conforms items outs :=
      houts.imp fun _ _ ⟨_, hout⟩ => hn _ _ _ hout
    exact .records hf hl hall.length_eq.symm (forall_mem_zip_of_forall₂ hall)

end ResolvedField

namespace Descriptor

/-- Whatever a descriptor with distinct keys projects is a record of it. -/
theorem conforms_of_project {d : Descriptor} (hkeys : d.DistinctKeys) :
    ∀ v l out, d.project v l = .ok out → d.Conforms v out := by
  induction d using Descriptor.induction with
  | step d ih =>
    intro v l out h
    obtain ⟨members, entries, rfl, hrows, rfl⟩ := project_eq_ok_iff.1 h
    have hpresent := ResolvedField.keys_of_rows hrows
    have hnodup := ResolvedField.nodup_keys_of_rows hkeys.here hrows
    rw [Entries.ofList_eq_self hnodup]
    refine .record hpresent hnodup ?_
    intro f hf u w hu hw
    obtain ⟨w', hw', hmem⟩ := ResolvedField.mem_rows hrows hf hu
    obtain rfl : w' = w := Option.some.inj ((Entries.get?_of_mem hnodup hmem).symm.trans hw)
    cases hnested : f.nested with
    | none =>
      rw [ResolvedField.project_of_nested_none hnested] at hw'
      exact ResolvedField.conforms_of_readPlain hnested hw'
    | some n =>
      rw [ResolvedField.project_of_nested_some hnested] at hw'
      exact ResolvedField.conforms_of_readNested hnested
        (ih f hf n hnested (hkeys.inside f hf n hnested)) hw'

end Descriptor
end RecordProjection
