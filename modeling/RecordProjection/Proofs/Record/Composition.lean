import RecordProjection.Proofs.Descriptor.Building
import RecordProjection.Proofs.Record.Conformance
import RecordProjection.Schema.Builtin

/-!
# Projecting a record again

A record that was projected along a descriptor without aliases can be projected once more along any
descriptor that asks for no more, and gives what its payload would have given. The two walks meet
the same fields: a field is found under its own name in the payload and in the record alike, and a
value that was read as a scalar is read again without change. The same goes for a record that was
written down in between, as long as its scalars are read back from their written form.

## Main definitions

* `Descriptor.AliasFree` : every field keeps the name of its source, at every level.
* `Descriptor.Within` : a descriptor asks for no more than another one.
* `ReadsBack` : what is read from values of a kind is read back from what is written of it.
-/
namespace RecordProjection

/-- Every field keeps the name of its source, at every level. -/
def Descriptor.AliasFree (d : Descriptor) : Prop :=
  d.Everywhere fun d => ∀ f ∈ d.fields, f.key = f.source.name

mutual

/-- A descriptor asks for no more than another one. -/
inductive Descriptor.Within : Descriptor → Descriptor → Prop
  | intro {d e : Descriptor} (fields : ∀ f ∈ d.fields, ResolvedField.Among f e.fields) :
      Descriptor.Within d e

/-- A field is among other fields: one of the same source asks for no less, and for fields of the
value just when this one does. -/
inductive ResolvedField.Among : ResolvedField → List ResolvedField → Prop
  | plain {f g : ResolvedField} {fields : List ResolvedField} (mem : g ∈ fields)
      (source : g.source = f.source) (here : f.nested = none) (there : g.nested = none) :
      ResolvedField.Among f fields
  | nested {f g : ResolvedField} {fields : List ResolvedField} {n m : Descriptor}
      (mem : g ∈ fields) (source : g.source = f.source) (here : f.nested = some n)
      (there : g.nested = some m) (inside : Descriptor.Within n m) :
      ResolvedField.Among f fields

end

namespace Descriptor

theorem Within.among {d e : Descriptor} (h : d.Within e) : ∀ f ∈ d.fields, f.Among e.fields := by
  cases h with
  | intro fields => exact fields

theorem within_refl (d : Descriptor) : d.Within d := by
  induction d using Descriptor.induction with
  | step d ih =>
    refine .intro ?_
    intro f hf
    cases hnested : f.nested with
    | none => exact .plain hf rfl hnested hnested
    | some n => exact .nested hf rfl hnested hnested (ih f hf n hnested)

end Descriptor

/-! ## Fields read again -/

/-- What is read from values of a kind is read back from what is written of it. Lists and mappings
are written item by item and member by member. -/
structure ReadsBack (write : Value → Value) (P : Value → Prop) : Prop where
  null : write .null = .null
  list : ∀ items, write (.list items) = .list (items.map write)
  mapping : ∀ members : Members,
    write (.mapping members) = .mapping (members.map fun m => (m.1, write m.2))
  items : ∀ items, P (.list items) → ∀ v ∈ items, P v
  members : ∀ members : Members, P (.mapping members) → ∀ m ∈ members, P m.2
  scalar : ∀ type v w, P v → readScalar type v = .ok w → readScalar type (write w) = .ok w

/-- What was read is read back as it is. -/
theorem readsBack_id : ReadsBack id fun _ => True where
  null := rfl
  list items := by rw [List.map_id, id]
  mapping members := by simp
  items _ _ _ _ := trivial
  members _ _ _ _ := trivial
  scalar _ _ _ _ h := readScalar_of_scalarConforms (scalarConforms_of_readScalar h)

section
variable {write : Value → Value} {P : Value → Prop} (hback : ReadsBack write P)
include hback

/-- What a field without a descriptor of its own gives is read back. -/
theorem ReadsBack.readPlain {source : FieldSchema} {v w : Value} (hv : P v)
    (h : readPlain source v = .ok w) : readPlain source (write w) = .ok w := by
  rcases readPlain_cases h with ⟨hl, h⟩ | ⟨hl, -, rfl⟩ | ⟨items, outs, hl, rfl, rfl, houts⟩
  · rw [readPlain_single hl]
    exact hback.scalar _ _ _ hv h
  · rw [hback.list, readPlain_list hl]
    rfl
  · have hagain : (outs.map write).mapM (readScalar source.type) = .ok outs := by
      refine exceptMapM_eq_ok_iff.2 (List.forall₂_map_left_iff.2 (List.forall₂_same.2 ?_))
      intro b hb
      obtain ⟨a, ha, hab⟩ := exists_of_mem_forall₂ houts hb
      exact hback.scalar _ _ _ (hback.items _ hv a ha) hab
    rw [hback.list, readPlain_list hl, hagain]
    rfl

end

/-- Two values give the same result, wherever they stand. -/
def Agree (read : Value → Location → Except ProjectionError Value) (v w : Value) : Prop :=
  ∃ out, (∀ l, read v l = .ok out) ∧ ∀ l, read w l = .ok out

theorem Agree.list {read : Value → Location → Except ProjectionError Value} {vs ws : List Value}
    (h : List.Forall₂ (Agree read) vs ws) : ∃ outs,
      List.Forall₂ (fun v out => ∀ l, read v l = .ok out) vs outs ∧
      List.Forall₂ (fun w out => ∀ l, read w l = .ok out) ws outs := by
  induction h with
  | nil => exact ⟨[], .nil, .nil⟩
  | cons hvw _ ih =>
    obtain ⟨out, hv, hw⟩ := hvw
    obtain ⟨outs, hvs, hws⟩ := ih
    exact ⟨out :: outs, .cons hv hvs, .cons hw hws⟩

theorem readNested_list_of_forall₂ {source : FieldSchema} (hl : source.isList = true)
    {model target : String} {inner : Value → Location → Except ProjectionError Value}
    {items outs : List Value} (h : List.Forall₂ (fun v out => ∀ l, inner v l = .ok out) items outs)
    (l : Location) : readNested model target source inner (.list items) l = .ok (.list outs) := by
  have hall := mapM_zipIdx_of_forall₂ (f := fun p => inner p.1 (l.item p.2))
    (h.imp fun _ _ hout i => hout (l.item i)) 0
  rw [readNested_list hl, hall]
  rfl

section
variable {write : Value → Value} {P : Value → Prop} (hback : ReadsBack write P)
include hback

/-- A field with descriptors of its own agrees on a value and on what is written of its result along
the wider one when the descriptors do so inside the value. -/
theorem ReadsBack.agree_readNested {source : FieldSchema} {model target model' target' : String}
    {wide narrow : Value → Location → Except ProjectionError Value}
    (hmapping : ∀ v l w, wide v l = .ok w → ∃ entries, w = .mapping entries)
    (hinner : ∀ v l w, P v → wide v l = .ok w → Agree narrow v (write w)) {v w : Value}
    {l : Location} (hv : P v) (h : readNested model target source wide v l = .ok w) :
    Agree (readNested model' target' source narrow) v (write w) := by
  rcases readNested_cases h with ⟨hl, rfl, rfl⟩ | ⟨members, hl, rfl, hout⟩ | ⟨hl, hlist, rfl⟩ |
    ⟨items, outs, hl, rfl, rfl, houts⟩
  · rw [hback.null]
    exact ⟨.null, fun l => readNested_null hl, fun l => readNested_null hl⟩
  · obtain ⟨entries, rfl⟩ := hmapping _ _ _ hout
    obtain ⟨out, hpayload, hrecord⟩ := hinner _ _ _ hv hout
    rw [hback.mapping] at hrecord ⊢
    refine ⟨out, ?_, ?_⟩
    · intro l
      rw [readNested_mapping hl, hpayload]
    · intro l
      rw [readNested_mapping hl, hrecord]
  · rw [hback.list]
    exact ⟨.list [], fun l => readNested_of_not_list hl hlist, readNested_list_of_forall₂ hl .nil⟩
  · have hitems := (List.forall₂_and_left items outs).2 ⟨hback.items _ hv, houts⟩
    have hagree : List.Forall₂ (Agree narrow) items (outs.map write) :=
      List.forall₂_map_right_iff.2 (hitems.imp fun _ _ ⟨hitem, _, hout⟩ => hinner _ _ _ hitem hout)
    obtain ⟨results, hpayload, hrecord⟩ := Agree.list hagree
    rw [hback.list]
    exact ⟨.list results, readNested_list_of_forall₂ hl hpayload,
      readNested_list_of_forall₂ hl hrecord⟩

namespace ResolvedField
variable {f g : ResolvedField} {model model' : String} {v w : Value} {l : Location}

theorem agree_plain (hv : P v) (hsource : g.source = f.source) (hf : f.nested = none)
    (hg : g.nested = none) (h : g.project model v l = .ok w) :
    Agree (f.project model') v (write w) := by
  rw [project_of_nested_none hg, hsource] at h
  refine ⟨w, ?_, ?_⟩
  · intro l
    rw [project_of_nested_none hf, h]
  · intro l
    rw [project_of_nested_none hf, hback.readPlain hv h]

theorem agree_nested {n m : Descriptor} (hv : P v) (hsource : g.source = f.source)
    (hf : f.nested = some n) (hg : g.nested = some m)
    (hinner : ∀ v l w, P v → m.project v l = .ok w → Agree n.project v (write w))
    (h : g.project model v l = .ok w) : Agree (f.project model') v (write w) := by
  rw [project_of_nested_some hg, hsource] at h
  have hmapping : ∀ v l w, m.project v l = .ok w → ∃ entries, w = .mapping entries := by
    intro v l w hw
    obtain ⟨_, entries, -, -, rfl⟩ := Descriptor.project_eq_ok_iff.1 hw
    exact ⟨_, rfl⟩
  have hagree : Agree (readNested model' n.model f.source n.project) v (write w) :=
    hback.agree_readNested hmapping hinner hv h
  obtain ⟨out, hpayload, hrecord⟩ := hagree
  refine ⟨out, ?_, ?_⟩
  · intro l
    rw [project_of_nested_some hf, hpayload]
  · intro l
    rw [project_of_nested_some hf, hrecord]

end ResolvedField

end

/-! ## Levels walked again -/

/-- Fields that find nothing in two mappings, or values that agree, give the same rows. -/
theorem ResolvedField.agree_rows {model : String} {members entries : Members}
    {fs : List ResolvedField} (h : ∀ f ∈ fs,
      (Entries.get? f.source.name members = none ∧ Entries.get? f.source.name entries = none) ∨
      ∃ v w, Entries.get? f.source.name members = some v ∧
        Entries.get? f.source.name entries = some w ∧ Agree (f.project model) v w) :
    ∃ out, (∀ l, rows model members l fs = .ok out) ∧ ∀ l, rows model entries l fs = .ok out := by
  induction fs with
  | nil => exact ⟨[], fun _ => rfl, fun _ => rfl⟩
  | cons f fs ih =>
    obtain ⟨rest, hmembers, hentries⟩ := ih fun g hg => h g (List.mem_cons_of_mem _ hg)
    rcases h f List.mem_cons_self with ⟨hv, hw⟩ | ⟨v, w, hv, hw, out, hout, hout'⟩
    · refine ⟨rest, ?_, ?_⟩
      · intro l
        rw [rows_cons_of_absent hv, hmembers]
      · intro l
        rw [rows_cons_of_absent hw, hentries]
    · refine ⟨(f.key, out) :: rest, ?_, ?_⟩
      · intro l
        rw [rows_cons_of_present hv, hout, hmembers]
        rfl
      · intro l
        rw [rows_cons_of_present hw, hout', hentries]
        rfl

namespace Descriptor

/-- A level without aliases gives a field under the name of its source, just when the source is
there. -/
theorem get?_rows {d : Descriptor} (hkeys : d.keys.Nodup)
    (hfree : ∀ f ∈ d.fields, f.key = f.source.name) {members entries : Members} {l : Location}
    (h : ResolvedField.rows d.model members l d.fields = .ok entries) {g : ResolvedField}
    (hg : g ∈ d.fields) :
    (Entries.get? g.source.name members = none ∧ Entries.get? g.source.name entries = none) ∨
    ∃ v w, Entries.get? g.source.name members = some v ∧
      Entries.get? g.source.name entries = some w ∧
      g.project d.model v (l.member g.source.name) = .ok w := by
  cases hv : Entries.get? g.source.name members with
  | none =>
    refine .inl ⟨rfl, ?_⟩
    rw [Entries.get?_eq_none_iff, ResolvedField.keys_of_rows h]
    intro hmem
    obtain ⟨f, hf, hkey⟩ := List.mem_map.1 hmem
    obtain ⟨hf, hin⟩ := List.mem_filter.1 hf
    -- the key of a field that is there is the name of its source
    rw [hfree f hf] at hkey
    simp [ResolvedField.isIn, hkey, hv] at hin
  | some v =>
    have hnodup := ResolvedField.nodup_keys_of_rows hkeys h
    obtain ⟨w, hw, hmem⟩ := ResolvedField.mem_rows h hg hv
    refine .inr ⟨v, w, rfl, ?_, hw⟩
    rw [← hfree g hg]
    exact Entries.get?_of_mem hnodup hmem

/-- A narrower descriptor agrees on a value and on what is written of its record along a wider one
without aliases. -/
theorem agree_write_of_within {write : Value → Value} {P : Value → Prop}
    (hback : ReadsBack write P) (narrow : Descriptor) : ∀ wide : Descriptor, narrow.Within wide →
    wide.DistinctKeys → wide.AliasFree → ∀ v l out, P v → wide.project v l = .ok out →
    Agree narrow.project v (write out) := by
  induction narrow using Descriptor.induction with
  | step narrow ih =>
    intro wide hwithin hkeys hfree v l out hv hout
    obtain ⟨members, entries, rfl, hrows, rfl⟩ := project_eq_ok_iff.1 hout
    rw [Entries.ofList_eq_self (ResolvedField.nodup_keys_of_rows hkeys.here hrows), hback.mapping]
    have hmember {key : String} {u : Value} (hu : Entries.get? key members = some u) : P u :=
      hback.members _ hv _ (Entries.mem_of_get? hu)
    have hfields : ∀ f ∈ narrow.fields,
        (Entries.get? f.source.name members = none ∧
          Entries.get? f.source.name (entries.map fun m => (m.1, write m.2)) = none) ∨
        ∃ v w, Entries.get? f.source.name members = some v ∧
          Entries.get? f.source.name (entries.map fun m => (m.1, write m.2)) = some w ∧
          Agree (f.project narrow.model) v w := by
      intro f hf
      rw [Entries.get?_map]
      cases hwithin.among f hf with
      | @plain _ g _ hg hsource hnone hnone' =>
        rw [← hsource]
        refine (get?_rows hkeys.here hfree.here hrows hg).imp (by rintro ⟨hu, hw⟩; simp [hu, hw]) ?_
        rintro ⟨u, w, hu, hw, hproject⟩
        exact ⟨u, write w, hu, by rw [hw, Option.map_some],
          ResolvedField.agree_plain hback (hmember hu) hsource hnone hnone' hproject⟩
      | @nested _ g _ n m hg hsource hsome hsome' hinside =>
        rw [← hsource]
        refine (get?_rows hkeys.here hfree.here hrows hg).imp (by rintro ⟨hu, hw⟩; simp [hu, hw]) ?_
        rintro ⟨u, w, hu, hw, hproject⟩
        have hinner := ih f hf n hsome m hinside (hkeys.inside g hg m hsome')
          (hfree.inside g hg m hsome')
        exact ⟨u, write w, hu, by rw [hw, Option.map_some],
          ResolvedField.agree_nested hback (hmember hu) hsource hsome hsome' hinner hproject⟩
    obtain ⟨rows, hmembers, hentries⟩ := ResolvedField.agree_rows hfields
    refine ⟨.mapping (Entries.ofList rows), ?_, ?_⟩
    · intro l
      rw [project_mapping, hmembers]
      rfl
    · intro l
      rw [project_mapping, hentries]
      rfl

/-- A narrower descriptor agrees on a value and on its record along a wider one without aliases. -/
theorem agree_of_within (narrow wide : Descriptor) (hwithin : narrow.Within wide)
    (hkeys : wide.DistinctKeys) (hfree : wide.AliasFree) (v : Value) (l : Location) (out : Value)
    (hout : wide.project v l = .ok out) : Agree narrow.project v out :=
  agree_write_of_within readsBack_id narrow wide hwithin hkeys hfree v l out trivial hout

/-- Projection composes: the record of a descriptor without aliases gives along a narrower one what
its payload gives, and along its own descriptor itself. -/
theorem record_of_record {r : Registry} {maxDepth : Nat} {base : String} {shape : Shape}
    {wide narrow : Descriptor} (hresolve : r.resolve maxDepth base shape = .ok wide)
    (hfree : wide.AliasFree) (hwithin : narrow.Within wide) {joiner : Option Joiner}
    {raw out : Value} {origin : String} (hout : wide.record joiner raw origin = .ok out) :
    (∃ w, (∀ joiner' origin',
        ({ narrow with isFlat := false } : Descriptor).record joiner' out origin' = .ok w) ∧
      ∀ origin', ({ narrow with isFlat := wide.isFlat } : Descriptor).record joiner raw origin' =
        .ok w) ∧
    ∀ joiner' origin', ({ wide with isFlat := false } : Descriptor).record joiner' out origin' =
      .ok out := by
  obtain ⟨v, hv, hproject⟩ := record_eq_ok_iff.1 hout
  have hkeys := Registry.distinctKeys_of_resolve hresolve
  refine ⟨?_, ?_⟩
  · obtain ⟨w, hpayload, hrecord⟩ :=
      agree_of_within narrow wide hwithin hkeys hfree v _ out hproject
    refine ⟨w, ?_, ?_⟩
    · intro joiner' origin'
      exact (record_withFlat rfl origin').trans (hrecord _)
    · intro origin'
      exact (record_withFlat hv origin').trans (hpayload _)
  · obtain ⟨w, hpayload, hrecord⟩ :=
      agree_of_within wide wide (within_refl wide) hkeys hfree v _ out hproject
    obtain rfl : out = w := Except.ok.inj (hproject.symm.trans (hpayload _))
    intro joiner' origin'
    exact (record_withFlat rfl origin').trans (hrecord _)

/-- The date of a contract, and two fields of its recipient. -/
def awardShape : Shape :=
  ⟨[.named "award_date" none none (by decide),
    .named "recipient" none (some [.named "uei" none none (by decide),
      .named "display_name" none none (by decide)]) (by decide)], false, false⟩

/-- One of these two fields. -/
def recipientShape : Shape :=
  ⟨[.named "recipient" none (some [.named "display_name" none none (by decide)]) (by decide)],
    false, false⟩

/-- A contract without one of the fields, projected again along the narrower shape. -/
theorem contract_of_contract : ∃ wide narrow : Descriptor,
    Registry.builtin.resolve 2 "Contract" awardShape = .ok wide ∧
    Registry.builtin.resolve 2 "Contract" recipientShape = .ok narrow ∧
    ∃ w, ({ narrow with isFlat := false } : Descriptor).record none
      (.mapping [("award_date", .date ⟨2024, 1, 15, by decide, by decide, by decide⟩),
        ("recipient", .mapping [("display_name", .text "Acme")])]) "again" = .ok w := by
  have hinputs : ∃ wide narrow : Descriptor,
      Registry.builtin.resolve 2 "Contract" awardShape = .ok wide ∧
      Registry.builtin.resolve 2 "Contract" recipientShape = .ok narrow ∧
      wide.AliasFree ∧ narrow.Within wide ∧
      wide.record none (.mapping [("recipient",
          .mapping [("cage_code", .int 7), ("display_name", .text "Acme")]),
        ("award_date", .text "2024-01-15")]) "root" =
      .ok (.mapping [("award_date", .date ⟨2024, 1, 15, by decide, by decide, by decide⟩),
        ("recipient", .mapping [("display_name", .text "Acme")])]) := by
    refine ⟨_, _, rfl, rfl, ?_, ?_, rfl⟩
    · refine .intro (by decide) (List.forall_mem_cons.2 ⟨?_, List.forall_mem_singleton.2 ?_⟩)
      · rintro _ ⟨⟩
      · rintro _ ⟨⟩
        refine .intro (by decide) (List.forall_mem_cons.2 ⟨?_, List.forall_mem_singleton.2 ?_⟩)
        · rintro _ ⟨⟩
        · rintro _ ⟨⟩
    · have hlast {f g : ResolvedField} : g ∈ [f, g] := List.mem_cons_of_mem _ List.mem_cons_self
      refine .intro (List.forall_mem_singleton.2 (.nested hlast rfl rfl rfl ?_))
      exact .intro (List.forall_mem_singleton.2 (.plain hlast rfl rfl rfl))
  obtain ⟨wide, narrow, hwide, hnarrow, hfree, hwithin, hout⟩ := hinputs
  obtain ⟨⟨w, hw, -⟩, -⟩ := record_of_record hwide hfree hwithin hout
  exact ⟨wide, narrow, hwide, hnarrow, w, hw none "again"⟩

end Descriptor
end RecordProjection
