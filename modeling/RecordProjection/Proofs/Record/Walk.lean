import RecordProjection.Proofs.Entries
import RecordProjection.Proofs.Results
import RecordProjection.Record.Projection

/-!
# The walk along a descriptor

A record is projected by reading its fields one after the other and putting what they give into
the result. The rows of a walk are what the fields give, before keys that are used twice are put
together.

## Main definitions

* `ResolvedField.rows` : the keys and values that the fields of a level give, in their order.
-/
namespace RecordProjection

/-! ## The value of a field -/

section Values
variable {source : FieldSchema} {v : Value}

theorem readPlain_list (h : source.isList = true) (items : List Value) :
    readPlain source (.list items) = (items.mapM (readScalar source.type)).map .list := by
  rw [readPlain, if_pos h]

theorem readPlain_of_not_list (h : source.isList = true) (hv : ∀ items, v ≠ .list items) :
    readPlain source v = .ok (.list []) := by
  rw [readPlain.eq_def, if_pos h]
  split
  · exact absurd rfl (hv _)
  · rfl

theorem readPlain_single (h : source.isList = false) (v : Value) :
    readPlain source v = readScalar source.type v := by
  rw [readPlain.eq_def, h, if_neg Bool.false_ne_true]

/-- How a field without a descriptor of its own comes to its value. -/
theorem readPlain_cases {w : Value} (h : readPlain source v = .ok w) :
    (source.isList = false ∧ readScalar source.type v = .ok w) ∨
    (source.isList = true ∧ (∀ items, v ≠ .list items) ∧ w = .list []) ∨
    ∃ items outs, source.isList = true ∧ v = .list items ∧ w = .list outs ∧
      List.Forall₂ (fun a b => readScalar source.type a = .ok b) items outs := by
  cases hl : source.isList with
  | false =>
    rw [readPlain_single hl] at h
    exact .inl ⟨rfl, h⟩
  | true =>
    rcases v.list_or_not with ⟨items, rfl⟩ | hv
    · rw [readPlain_list hl] at h
      obtain ⟨outs, houts, rfl⟩ := exceptMap_eq_ok_iff.1 h
      exact .inr (.inr ⟨items, outs, rfl, rfl, rfl, exceptMapM_eq_ok_iff.1 houts⟩)
    · rw [readPlain_of_not_list hl hv] at h
      exact .inr (.inl ⟨rfl, hv, (Except.ok.inj h).symm⟩)

variable {model target : String} {inner : Value → Location → Except ProjectionError Value}
  {l : Location}

theorem readNested_list (h : source.isList = true) (items : List Value) :
    readNested model target source inner (.list items) l =
      (items.zipIdx.mapM fun (item, i) => inner item (l.item i)).map .list := by
  rw [readNested.eq_def, if_pos h]

theorem readNested_of_not_list (h : source.isList = true) (hv : ∀ items, v ≠ .list items) :
    readNested model target source inner v l = .ok (.list []) := by
  rw [readNested.eq_def, if_pos h]
  split
  · exact absurd rfl (hv _)
  · rfl

theorem readNested_null (h : source.isList = false) :
    readNested model target source inner .null l = .ok .null := by
  rw [readNested.eq_def, h, if_neg Bool.false_ne_true]

theorem readNested_mapping (h : source.isList = false) (members : Members) :
    readNested model target source inner (.mapping members) l = inner (.mapping members) l := by
  rw [readNested.eq_def, h, if_neg Bool.false_ne_true]

/-- A value that is neither nothing nor a mapping is an obstacle. -/
theorem readNested_of_not_mapping (h : source.isList = false) (hnull : v ≠ .null)
    (hv : ∀ members, v ≠ .mapping members) :
    readNested model target source inner v l =
      .error (.obstacle (.member model source.name target l v)) := by
  rw [readNested.eq_def, h, if_neg Bool.false_ne_true]
  split
  · exact absurd rfl hnull
  · exact absurd rfl (hv _)
  · rfl

/-- How a field with a descriptor of its own comes to its value. -/
theorem readNested_cases {w : Value} (h : readNested model target source inner v l = .ok w) :
    (source.isList = false ∧ v = .null ∧ w = .null) ∨
    (∃ members, source.isList = false ∧ v = .mapping members ∧
      inner (.mapping members) l = .ok w) ∨
    (source.isList = true ∧ (∀ items, v ≠ .list items) ∧ w = .list []) ∨
    ∃ items outs, source.isList = true ∧ v = .list items ∧ w = .list outs ∧
      List.Forall₂ (fun a b => ∃ i, inner a (l.item i) = .ok b) items outs := by
  cases hl : source.isList with
  | false =>
    cases v with
    | null =>
      rw [readNested_null hl] at h
      exact .inl ⟨rfl, rfl, (Except.ok.inj h).symm⟩
    | mapping members =>
      rw [readNested_mapping hl] at h
      exact .inr (.inl ⟨members, rfl, rfl, h⟩)
    | _ =>
      rw [readNested_of_not_mapping hl (by simp) (by simp)] at h
      cases h
  | true =>
    rcases v.list_or_not with ⟨items, rfl⟩ | hv
    · rw [readNested_list hl] at h
      obtain ⟨outs, houts, rfl⟩ := exceptMap_eq_ok_iff.1 h
      exact .inr (.inr (.inr ⟨items, outs, rfl, rfl, rfl, forall₂_of_mapM_zipIdx houts⟩))
    · rw [readNested_of_not_list hl hv] at h
      exact .inr (.inr (.inl ⟨rfl, hv, (Except.ok.inj h).symm⟩))

end Values

/-! ## The rows of a level -/

namespace ResolvedField

/-- The keys and values that fields give, one field after the other. A field whose source is not
there gives nothing. -/
def rows (model : String) (members : Members) (l : Location) :
    List ResolvedField → Except ProjectionError Members
  | [] => .ok []
  | f :: fs =>
    match Entries.get? f.source.name members with
    | none => rows model members l fs
    | some v => do
      let w ← f.project model v (l.member f.source.name)
      let rest ← rows model members l fs
      .ok ((f.key, w) :: rest)

/-- The source of a field is there. -/
def isIn (members : Members) (f : ResolvedField) : Bool :=
  (Entries.get? f.source.name members).isSome

theorem project_of_nested_none {f : ResolvedField} (h : f.nested = none) (model : String)
    (v : Value) (l : Location) : f.project model v l = readPlain f.source v := by
  obtain ⟨source, spec, key, nested⟩ := f
  obtain rfl : nested = none := h
  rfl

theorem project_of_nested_some {f : ResolvedField} {n : Descriptor} (h : f.nested = some n)
    (model : String) (v : Value) (l : Location) :
    f.project model v l = readNested model n.model f.source n.project v l := by
  obtain ⟨source, spec, key, nested⟩ := f
  obtain rfl : nested = some n := h
  rfl

section Rows
variable {model : String} {members : Members} {l : Location}

theorem rows_cons_of_absent {f : ResolvedField} (h : Entries.get? f.source.name members = none)
    (fs : List ResolvedField) : rows model members l (f :: fs) = rows model members l fs := by
  rw [rows, h]

theorem rows_cons_of_present {f : ResolvedField} {v : Value}
    (h : Entries.get? f.source.name members = some v) (fs : List ResolvedField) :
    rows model members l (f :: fs) = (do
      let w ← f.project model v (l.member f.source.name)
      let rest ← rows model members l fs
      .ok ((f.key, w) :: rest)) := by
  rw [rows, h]

/-- Fields that read alike, from the same sources and under the same keys, give the same rows. -/
theorem rows_eq_of_forall₂ {fs gs : List ResolvedField}
    (h : List.Forall₂ (fun f g => f.source = g.source ∧ f.key = g.key ∧
      ∀ v l, f.project model v l = g.project model v l) fs gs) :
    rows model members l fs = rows model members l gs := by
  induction h with
  | nil => rfl
  | @cons f g fs gs hfg _ ih =>
    obtain ⟨hsource, hkey, hproject⟩ := hfg
    cases hv : Entries.get? f.source.name members with
    | none => rw [rows_cons_of_absent hv, rows_cons_of_absent (hsource ▸ hv), ih]
    | some v =>
      rw [rows_cons_of_present hv, rows_cons_of_present (hsource ▸ hv), ih, hproject, hsource, hkey]

/-- The members of a result are its rows, put in one after the other. -/
theorem projectAll_eq (done : Members) (fs : List ResolvedField) :
    projectAll model members l done fs = (rows model members l fs).map fun rows =>
      rows.foldl (fun es p => Entries.insert p.1 p.2 es) done := by
  induction fs generalizing done with
  | nil => rfl
  | cons f fs ih =>
    rw [projectAll]
    cases hv : Entries.get? f.source.name members with
    | none =>
      rw [rows_cons_of_absent hv]
      exact ih done
    | some v =>
      simp only [rows_cons_of_present hv, ih]
      cases f.project model v (l.member f.source.name) with
      | error e => rfl
      | ok w => cases rows model members l fs <;> rfl

/-- The fields that give a row are those whose sources are there. -/
theorem keys_of_rows {fs : List ResolvedField} {entries : Members}
    (h : rows model members l fs = .ok entries) :
    Entries.keys entries = (fs.filter (isIn members)).map key := by
  induction fs generalizing entries with
  | nil =>
    obtain rfl := Except.ok.inj h
    rfl
  | cons f fs ih =>
    cases hv : Entries.get? f.source.name members with
    | none =>
      rw [rows_cons_of_absent hv] at h
      rw [List.filter_cons_of_neg (by simp [isIn, hv]), ih h]
    | some v =>
      rw [rows_cons_of_present hv] at h
      obtain ⟨w, -, h⟩ := exceptBind_eq_ok_iff.1 h
      obtain ⟨rest, hrest, h⟩ := exceptBind_eq_ok_iff.1 h
      obtain rfl := Except.ok.inj h
      rw [List.filter_cons_of_pos (by simp [isIn, hv]), List.map_cons, ← ih hrest]
      rfl

/-- Fields with distinct keys have rows with distinct keys. -/
theorem nodup_keys_of_rows {fs : List ResolvedField} {entries : Members} (hfs : (fs.map key).Nodup)
    (h : rows model members l fs = .ok entries) : (Entries.keys entries).Nodup := by
  rw [keys_of_rows h]
  exact hfs.sublist (List.filter_sublist.map key)

/-- Each field whose source is there has a row. -/
theorem mem_rows {fs : List ResolvedField} {entries : Members}
    (h : rows model members l fs = .ok entries) {f : ResolvedField} (hf : f ∈ fs) {v : Value}
    (hv : Entries.get? f.source.name members = some v) :
    ∃ w, f.project model v (l.member f.source.name) = .ok w ∧ (f.key, w) ∈ entries := by
  induction fs generalizing entries with
  | nil => exact absurd hf List.not_mem_nil
  | cons g fs ih =>
    cases hg : Entries.get? g.source.name members with
    | none =>
      rw [rows_cons_of_absent hg] at h
      rcases List.mem_cons.1 hf with rfl | hf
      · simp [hg] at hv
      · exact ih h hf
    | some u =>
      rw [rows_cons_of_present hg] at h
      obtain ⟨w, hw, h⟩ := exceptBind_eq_ok_iff.1 h
      obtain ⟨rest, hrest, h⟩ := exceptBind_eq_ok_iff.1 h
      obtain rfl := Except.ok.inj h
      rcases List.mem_cons.1 hf with rfl | hf
      · obtain rfl := Option.some.inj (hg.symm.trans hv)
        exact ⟨w, hw, List.mem_cons_self⟩
      · obtain ⟨w', hw', hmem⟩ := ih hrest hf
        exact ⟨w', hw', List.mem_cons_of_mem _ hmem⟩

end Rows

end ResolvedField

namespace Descriptor

theorem project_mapping (d : Descriptor) (members : Members) (l : Location) :
    d.project (.mapping members) l =
      (ResolvedField.rows d.model members l d.fields).map fun rows =>
        .mapping (Entries.ofList rows) := by
  obtain ⟨model, fields, isFlat, isFlatLists⟩ := d
  rw [project, ResolvedField.projectAll_eq]
  cases ResolvedField.rows model members l fields <;> rfl

/-- What is no mapping is an obstacle. -/
theorem project_of_not_mapping (d : Descriptor) {v : Value} (h : ∀ members, v ≠ .mapping members)
    (l : Location) : d.project v l = .error (.obstacle (.record d.model l v)) := by
  obtain ⟨model, fields, isFlat, isFlatLists⟩ := d
  cases v with
  | mapping members => exact absurd rfl (h members)
  | _ => rfl

/-- Only mappings have a projection: the record of their rows. -/
theorem project_eq_ok_iff {d : Descriptor} {v out : Value} {l : Location} :
    d.project v l = .ok out ↔ ∃ members entries, v = .mapping members ∧
      ResolvedField.rows d.model members l d.fields = .ok entries ∧
      out = .mapping (Entries.ofList entries) := by
  constructor
  · intro h
    rcases v.mapping_or_not with ⟨members, rfl⟩ | hv
    · rw [project_mapping] at h
      obtain ⟨entries, hentries, rfl⟩ := exceptMap_eq_ok_iff.1 h
      exact ⟨members, entries, rfl, hentries, rfl⟩
    · rw [d.project_of_not_mapping hv] at h
      cases h
  · rintro ⟨members, entries, rfl, hentries, rfl⟩
    rw [project_mapping, hentries]
    rfl

/-- A flag says nothing about the walk. -/
theorem project_withFlat (d : Descriptor) (isFlat : Bool) (v : Value) (l : Location) :
    ({ d with isFlat := isFlat } : Descriptor).project v l = d.project v l := by
  cases d
  rfl

theorem record_withFlat {d : Descriptor} {isFlat : Bool} {joiner : Option Joiner} {raw v : Value}
    (h : ({ d with isFlat := isFlat } : Descriptor).unflattened joiner raw = .ok v)
    (origin : String) :
    ({ d with isFlat := isFlat } : Descriptor).record joiner raw origin =
      d.project v (.start origin) := by
  rw [record, h]
  exact d.project_withFlat isFlat v _

/-- Only an empty joiner keeps a payload from being taken apart. -/
theorem eq_emptyJoiner_of_unflattened {d : Descriptor} {joiner : Option Joiner} {raw : Value}
    {err : ProjectionError} (h : d.unflattened joiner raw = .error err) : err = .emptyJoiner := by
  rw [unflattened.eq_def] at h
  split at h
  · split at h
    · cases h
    · exact (Except.error.inj h).symm
    · cases h
  · cases h

/-- A payload that is not flat is walked as it is. -/
theorem record_eq_project {d : Descriptor} (h : d.isFlat = false) (joiner : Option Joiner)
    (raw : Value) (origin : String) : d.record joiner raw origin = d.project raw (.start origin) := by
  rw [record, unflattened.eq_def, h, if_neg Bool.false_ne_true]
  rfl

theorem record_eq_ok_iff {d : Descriptor} {joiner : Option Joiner} {raw out : Value}
    {origin : String} : d.record joiner raw origin = .ok out ↔
      ∃ v, d.unflattened joiner raw = .ok v ∧ d.project v (.start origin) = .ok out := by
  rw [record, exceptBind_eq_ok_iff]

end Descriptor
end RecordProjection
