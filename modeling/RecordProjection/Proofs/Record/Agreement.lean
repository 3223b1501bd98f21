import RecordProjection.Proofs.Record.Composition

/-!
# What a projection depends on

A projection reads the members that its descriptor asks for, and nothing else has any bearing on
it: not on the record, and not on the obstacle that there is instead. Two values that agree on a
descriptor give the same outcome, whatever other members they have and in whatever order.

## Main definitions

* `Descriptor.AgreeOn` : two values cannot be told apart by what a descriptor asks for.
-/
namespace RecordProjection

mutual

/-- Two values agree on a descriptor: they are the same and no mapping, or mappings in which the
same sources of fields are there, with values that agree on these fields. -/
inductive Descriptor.AgreeOn : Descriptor → Value → Value → Prop
  | same {d : Descriptor} {v : Value} (other : ∀ members, v ≠ .mapping members) :
      Descriptor.AgreeOn d v v
  | mappings {d : Descriptor} {members members' : Members}
      (present : ∀ f ∈ d.fields, Entries.get? f.source.name members = none ↔
        Entries.get? f.source.name members' = none)
      (values : ∀ f ∈ d.fields, ∀ v w, Entries.get? f.source.name members = some v →
        Entries.get? f.source.name members' = some w → ResolvedField.AgreeOn f v w) :
      Descriptor.AgreeOn d (.mapping members) (.mapping members')

/-- Two values agree on a field. A value whose own fields are not asked for has to be the same, but
what is no list counts for nothing in a field that should have one. -/
inductive ResolvedField.AgreeOn : ResolvedField → Value → Value → Prop
  | whole {f : ResolvedField} {v : Value} (plain : f.nested = none) : ResolvedField.AgreeOn f v v
  | noLists {f : ResolvedField} {v w : Value} (isList : f.source.isList = true)
      (left : ∀ items, v ≠ .list items) (right : ∀ items, w ≠ .list items) :
      ResolvedField.AgreeOn f v w
  | inner {f : ResolvedField} {n : Descriptor} {v w : Value} (nested : f.nested = some n)
      (single : f.source.isList = false) (inside : Descriptor.AgreeOn n v w) :
      ResolvedField.AgreeOn f v w
  | records {f : ResolvedField} {n : Descriptor} {items items' : List Value}
      (nested : f.nested = some n) (isList : f.source.isList = true)
      (length : items.length = items'.length)
      (each : ∀ p ∈ items.zip items', Descriptor.AgreeOn n p.1 p.2) :
      ResolvedField.AgreeOn f (.list items) (.list items')

end

/-- Of two lists of entries that hold related entries among others, in whichever order, the second
has a related entry under a key of the first that is none of the others. -/
theorem Entries.exists_get?_of_perm {κ α : Type} [DecidableEq κ] {R : κ × α → κ × α → Prop}
    (hR : ∀ p q, R p q → p.1 = q.1) {es es' asked asked' extra extra' : Entries κ α}
    (hes : es.Perm (asked ++ extra)) (hes' : es'.Perm (asked' ++ extra'))
    (hkeys : (keys es').Nodup) (hasked : List.Forall₂ R asked asked') {key : κ}
    (hkey : key ∉ keys extra) {a : α} (h : get? key es = some a) :
    ∃ b, get? key es' = some b ∧ R (key, a) (key, b) := by
  have hmem := hes.mem_iff.1 (mem_of_get? h)
  rcases List.mem_append.1 hmem with hmem | hmem
  · obtain ⟨⟨key', b⟩, hb, hab⟩ := exists_of_mem_forall₂_left hasked hmem
    obtain rfl : key = key' := hR _ _ hab
    exact ⟨b, get?_of_mem hkeys (hes'.mem_iff.2 (List.mem_append_left extra' hb)), hab⟩
  · exact absurd (List.mem_map_of_mem hmem) hkey

/-! ## Values that agree give the same outcome -/

namespace ResolvedField

/-- Fields that find nothing in two mappings, or values that they read alike, give the same rows or
the same error. -/
theorem rows_congr {model : String} {members members' : Members} {l : Location}
    {fs : List ResolvedField}
    (hpresent : ∀ f ∈ fs, Entries.get? f.source.name members = none ↔
      Entries.get? f.source.name members' = none)
    (hread : ∀ f ∈ fs, ∀ v w, Entries.get? f.source.name members = some v →
      Entries.get? f.source.name members' = some w →
      ∀ l, f.project model v l = f.project model w l) :
    rows model members l fs = rows model members' l fs := by
  induction fs with
  | nil => rfl
  | cons f fs ih =>
    obtain ⟨hhere, hthere⟩ := List.forall_mem_cons.1 hpresent
    obtain ⟨hreadHere, hreadThere⟩ := List.forall_mem_cons.1 hread
    have hrest := ih hthere hreadThere
    cases hv : Entries.get? f.source.name members with
    | none => rw [rows_cons_of_absent hv, rows_cons_of_absent (hhere.1 hv), hrest]
    | some v =>
      cases hw : Entries.get? f.source.name members' with
      | none => simp [hhere.2 hw] at hv
      | some w =>
        rw [rows_cons_of_present hv, rows_cons_of_present hw, hreadHere v w hv hw, hrest]

/-- A field reads values that agree on it alike, if its descriptor does. -/
theorem project_eq_of_agreeOn {f : ResolvedField}
    (hinner : ∀ n, f.nested = some n → ∀ v w, n.AgreeOn v w → ∀ l, n.project v l = n.project w l)
    {v w : Value} (h : f.AgreeOn v w) (model : String) (l : Location) :
    f.project model v l = f.project model w l := by
  cases h with
  | whole hplain => rfl
  | noLists hl hv hw =>
    cases hnested : f.nested with
    | none =>
      rw [project_of_nested_none hnested, project_of_nested_none hnested,
        readPlain_of_not_list hl hv, readPlain_of_not_list hl hw]
    | some n =>
      rw [project_of_nested_some hnested, project_of_nested_some hnested,
        readNested_of_not_list hl hv, readNested_of_not_list hl hw]
  | @inner _ n _ _ hnested hl hinside =>
    rw [project_of_nested_some hnested, project_of_nested_some hnested]
    have hsame := hinner n hnested v w hinside l
    cases hinside with
    | same => rfl
    | mappings => rw [readNested_mapping hl, readNested_mapping hl, hsame]
  | @records _ n items items' hnested hl hlength heach =>
    have hitems : List.Forall₂ n.AgreeOn items items' :=
      List.forall₂_iff_zip.2 ⟨hlength, fun hp => heach _ hp⟩
    rw [project_of_nested_some hnested, project_of_nested_some hnested, readNested_list hl,
      readNested_list hl]
    congr 1
    apply mapM_zipIdx_congr
    exact hitems.imp fun v w hvw i => hinner n hnested v w hvw (l.item i)

end ResolvedField

namespace Descriptor

/-- Values that agree on a descriptor are projected to the same record, or fail with the same
error. -/
theorem project_eq_of_agreeOn (d : Descriptor) : ∀ v w, d.AgreeOn v w →
    ∀ l, d.project v l = d.project w l := by
  induction d using Descriptor.induction with
  | step d ih =>
    intro v w h l
    cases h with
    | same => rfl
    | mappings hpresent hvalues =>
      rw [project_mapping, project_mapping]
      congr 1
      apply ResolvedField.rows_congr hpresent
      intro f hf v w hv hw
      exact ResolvedField.project_eq_of_agreeOn (ih f hf) (hvalues f hf v w hv hw) d.model

/-! ## Values that agree -/

/-- Every value agrees with itself. -/
theorem agreeOn_refl (d : Descriptor) : ∀ v, d.AgreeOn v v := by
  induction d using Descriptor.induction with
  | step d ih =>
    intro v
    rcases v.mapping_or_not with ⟨members, rfl⟩ | hother
    · refine .mappings (fun _ _ => Iff.rfl) ?_
      intro f hf v w hv hw
      obtain rfl : v = w := Option.some.inj (hv.symm.trans hw)
      cases hnested : f.nested with
      | none => exact .whole hnested
      | some n =>
        have hself := ih f hf n hnested
        cases hl : f.source.isList with
        | false => exact .inner hnested hl (hself v)
        | true =>
          rcases v.list_or_not with ⟨items, rfl⟩ | hv
          · have hitems : List.Forall₂ n.AgreeOn items items :=
              List.forall₂_same.2 fun u _ => hself u
            exact .records hnested hl rfl (forall_mem_zip_of_forall₂ hitems)
          · exact .noLists hl hv hv
    · exact .same hother

/-- Mappings agree when the members that are asked for do, whichever other members stand among them
and in whichever order. -/
theorem agreeOn_of_perm {d : Descriptor} {members members' asked asked' extra extra' : Members}
    (hmembers : members.Perm (asked ++ extra)) (hmembers' : members'.Perm (asked' ++ extra'))
    (hkeys : (Entries.keys members).Nodup) (hkeys' : (Entries.keys members').Nodup)
    (hasked : List.Forall₂ (fun m m' => m.1 = m'.1 ∧
      ∀ f ∈ d.fields, f.source.name = m.1 → f.AgreeOn m.2 m'.2) asked asked')
    (hextra : ∀ f ∈ d.fields, f.source.name ∉ Entries.keys (extra ++ extra')) :
    d.AgreeOn (.mapping members) (.mapping members') := by
  have hfree : ∀ f ∈ d.fields, f.source.name ∉ Entries.keys extra ∧
      f.source.name ∉ Entries.keys extra' := by
    intro f hf
    have hnot := hextra f hf
    rw [Entries.keys, List.map_append, List.mem_append, not_or] at hnot
    exact hnot
  have hthere : ∀ f ∈ d.fields, ∀ v, Entries.get? f.source.name members = some v →
      ∃ w, Entries.get? f.source.name members' = some w ∧ f.AgreeOn v w := by
    intro f hf v hv
    obtain ⟨w, hw, -, hagree⟩ := Entries.exists_get?_of_perm (fun _ _ h => h.1) hmembers hmembers'
      hkeys' hasked (hfree f hf).1 hv
    exact ⟨w, hw, hagree f hf rfl⟩
  have hhere : ∀ f ∈ d.fields, ∀ w, Entries.get? f.source.name members' = some w →
      ∃ v, Entries.get? f.source.name members = some v := by
    intro f hf w hw
    obtain ⟨v, hv, -⟩ := Entries.exists_get?_of_perm (fun _ _ h => h.1.symm) hmembers' hmembers
      hkeys hasked.flip (hfree f hf).2 hw
    exact ⟨v, hv⟩
  refine .mappings ?_ ?_
  · intro f hf
    constructor
    · intro hnone
      apply Option.eq_none_iff_forall_ne_some.2
      intro w hw
      obtain ⟨v, hv⟩ := hhere f hf w hw
      exact absurd (hnone.symm.trans hv) (by simp)
    · intro hnone
      apply Option.eq_none_iff_forall_ne_some.2
      intro v hv
      obtain ⟨w, hw, -⟩ := hthere f hf v hv
      exact absurd (hnone.symm.trans hw) (by simp)
  · intro f hf v w hv hw
    obtain ⟨w', hw', hagree⟩ := hthere f hf v hv
    obtain rfl : w' = w := Option.some.inj (hw'.symm.trans hw)
    exact hagree

/-- A projection depends on what its descriptor asks for and on nothing else: payloads that agree on
it give the same record or the same error. Every payload agrees with itself, and two payloads agree
when the members that are asked for do, whichever other members stand among them and in whichever
order. -/
theorem record_of_agreeOn :
    (∀ (d : Descriptor) (members members' : Members) (joiner : Option Joiner) (origin : String),
      d.isFlat = false → d.AgreeOn (.mapping members) (.mapping members') →
        d.record joiner (.mapping members) origin = d.record joiner (.mapping members') origin) ∧
    (∀ (d : Descriptor) (v : Value), d.AgreeOn v v) ∧
    ∀ (d : Descriptor) (members members' asked asked' extra extra' : Members),
      members.Perm (asked ++ extra) → members'.Perm (asked' ++ extra') →
      (Entries.keys members).Nodup → (Entries.keys members').Nodup →
      List.Forall₂ (fun m m' => m.1 = m'.1 ∧
        ∀ f ∈ d.fields, f.source.name = m.1 → f.AgreeOn m.2 m'.2) asked asked' →
      (∀ f ∈ d.fields, f.source.name ∉ Entries.keys (extra ++ extra')) →
      d.AgreeOn (.mapping members) (.mapping members') := by
  refine ⟨?_, agreeOn_refl, ?_⟩
  · intro d members members' joiner origin hflat hagree
    rw [record_eq_project hflat, record_eq_project hflat]
    exact d.project_eq_of_agreeOn _ _ hagree (.start origin)
  · intro d members members' asked asked' extra extra' hmembers hmembers' hkeys hkeys' hasked hextra
    exact agreeOn_of_perm hmembers hmembers' hkeys hkeys' hasked hextra

/-- A contract whose recipient has a number for a location fails alike with other members around
it. -/
theorem contracts_agree : ∃ d, Registry.builtin.resolve 3 "Contract" ⟨[.named "recipient" none
      (some [.named "location" none (some [.named "city" none none (by decide)]) (by decide),
        .named "uei" none none (by decide)]) (by decide)], false, false⟩ = .ok d ∧
    d.record none (.mapping [("recipient", .mapping [("uei", .text "U1"), ("location", .int 5)])])
      "root" =
    d.record none (.mapping [("piid", .text "P-1"), ("recipient",
      .mapping [("location", .int 5), ("cage_code", .null), ("uei", .text "U1")])]) "root" := by
  obtain ⟨hrecord, hself, hperm⟩ := record_of_agreeOn
  refine ⟨_, rfl, hrecord _ _ _ none "root" rfl ?_⟩
  refine hperm _ _ _ [_] [_] [] [("piid", .text "P-1")] (.refl _) (.swap _ _ _) (by decide)
    (by decide) (.cons ⟨rfl, List.forall_mem_singleton.2 fun _ => ?_⟩ .nil) (by decide)
  refine .inner rfl rfl (hperm _ _ _ [("location", .int 5), ("uei", .text "U1")]
    [("location", .int 5), ("uei", .text "U1")] [] [("cage_code", .null)] (.swap _ _ _)
    (.cons _ (.swap _ _ _)) (by decide) (by decide) ?_ (by decide))
  refine .cons ⟨rfl, List.forall_mem_cons.2 ⟨?_, List.forall_mem_singleton.2 ?_⟩⟩
    (.cons ⟨rfl, List.forall_mem_cons.2 ⟨?_, List.forall_mem_singleton.2 ?_⟩⟩ .nil)
  · intro _
    exact .inner rfl rfl (hself _ _)
  · intro h
    exact absurd h (by decide)
  · intro h
    exact absurd h (by decide)
  · intro _
    exact .whole rfl

end Descriptor
end RecordProjection
