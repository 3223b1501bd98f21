import RecordProjection.Proofs.Declaration
import RecordProjection.Schema.Registry

/-!
# Declared fields and record types

What the declaration of a field says of it, and when it says anything: its type is a text, its flags
are values that stand for flags, the record type of its value is a text or null, and it has no other
members. A table declares the fields of a record type in their order, each under its own name, and a
catalog declares record types in the same way. Loading gives what is declared, and fails when
nothing is.

## Main definitions

* `FieldSchema.ValidDeclaration` : the members of a declaration are in order.
* `FieldSchema.Declares` : what the members of a declaration say of a field.
* `Model.DeclaredBy` : a record type is the one of an entry of a catalog.
-/
namespace RecordProjection

open Declaration

/-! ## Members -/

/-- The flag that a member gives: the usual one if there is no such member. -/
inductive GivesFlag (usual : Bool) : Option Value → Bool → Prop
  | missing : GivesFlag usual none usual
  | given {v : Value} {b : Bool} (h : v.MeansFlag b) : GivesFlag usual (some v) b

/-- The record type that a member names: none if there is no such member, or it is null or blank. -/
inductive NamesModel : Option Value → Option String → Prop
  | missing : NamesModel none none
  | null : NamesModel (some .null) none
  | blank {s : String} (h : Text.isBlankText s = true) : NamesModel (some (.text s)) none
  | text {s : String} (h : Text.isBlankText s = false) : NamesModel (some (.text s)) (some s)

/-- A member names the text that it is, unless that is blank. -/
theorem NamesModel.eq_some_iff {v? : Option Value} {model : Option String}
    (h : NamesModel v? model) {s : String} :
    model = some s ↔ v? = some (.text s) ∧ Text.isBlankText s = false := by
  cases h with
  | missing => simp
  | null => simp
  | blank h =>
    simp only [Option.some.injEq, Value.text.injEq, reduceCtorEq, false_iff, not_and]
    rintro rfl
    simp [h]
  | text h =>
    simp only [Option.some.injEq, Value.text.injEq]
    exact ⟨fun heq => ⟨heq, heq ▸ h⟩, And.left⟩

theorem givesFlag_none_iff {usual b : Bool} : GivesFlag usual none b ↔ b = usual :=
  ⟨fun h => by cases h; rfl, fun h => h ▸ .missing⟩

theorem givesFlag_some_iff {usual b : Bool} {v : Value} :
    GivesFlag usual (some v) b ↔ v.MeansFlag b :=
  ⟨fun h => by cases h with | given h => exact h, .given⟩

theorem optional_flag_eq_ok_iff {members : Members} {key : String} {usual b : Bool} :
    Declaration.optional members key usual flag = .ok b ↔
      GivesFlag usual (Entries.get? key members) b := by
  rw [optional_eq_ok_iff]
  cases Entries.get? key members with
  | none => simp [givesFlag_none_iff, eq_comm]
  | some v => simp [givesFlag_some_iff, flag_eq_ok_iff]

theorem nestedModelMember_eq_ok_iff {v : Value} {model : Option String} :
    FieldSchema.nestedModelMember v = .ok model ↔ NamesModel (some v) model := by
  rw [FieldSchema.nestedModelMember, exceptMap_eq_ok_iff]
  constructor
  · rintro ⟨s?, htext, rfl⟩
    rcases optionalText_eq_ok_iff.1 htext with ⟨rfl, rfl⟩ | ⟨s, rfl, rfl⟩
    · exact .null
    · cases hblank : Text.isBlankText s with
      | true => rw [Option.filter_some, hblank]; exact .blank hblank
      | false => rw [Option.filter_some, hblank]; exact .text hblank
  · intro h
    cases h with
    | null => exact ⟨none, rfl, rfl⟩
    | @blank s h => exact ⟨some s, rfl, by simp [h]⟩
    | @text s h => exact ⟨some s, rfl, by simp [h]⟩

theorem optional_nestedModel_eq_ok_iff {members : Members} {key : String} {model : Option String} :
    Declaration.optional members key none FieldSchema.nestedModelMember = .ok model ↔
      NamesModel (Entries.get? key members) model := by
  rw [optional_eq_ok_iff]
  cases Entries.get? key members with
  | none =>
    constructor
    · rintro (⟨-, rfl⟩ | ⟨v, hv, -⟩)
      · exact .missing
      · cases hv
    · rintro ⟨⟩
      exact .inl ⟨rfl, rfl⟩
  | some v => simp [nestedModelMember_eq_ok_iff]

/-! ## References -/

theorem FieldSchema.mem_references_iff {f : FieldSchema} {s : String} :
    s ∈ f.references ↔ f.nestedModel = some s ∨ f.type = s ∧ s ∉ primitiveTypes := by
  rw [references, List.mem_append, isPrimitive, Option.mem_toList]
  refine or_congr_right ?_
  by_cases h : f.type ∈ primitiveTypes
  · rw [if_pos (List.contains_iff_mem.2 h)]
    refine ⟨nofun, ?_⟩
    rintro ⟨rfl, hs⟩
    exact absurd h hs
  · rw [if_neg (List.contains_iff_mem.not.2 h), List.mem_singleton]
    constructor
    · rintro rfl
      exact ⟨rfl, h⟩
    · rintro ⟨rfl, -⟩
      rfl

/-- Record types refer to nothing but each other when every reference is the name of one. -/
theorem danglingReference?_eq_none_iff {models : List Model} : danglingReference? models = none ↔
    ∀ m ∈ models, ∀ f ∈ m.fields, ∀ s ∈ f.references, s ∈ models.map Model.name := by
  simp [danglingReference?]

namespace FieldSchema

/-! ## Declarations -/

/-- The members that a declaration can have. The name of a field is the key of its declaration. -/
def declarationKeys : List String := ["type", "is_optional", "is_list", "nested_model"]

/-- The members of a declaration are in order. -/
structure ValidDeclaration (members : Members) : Prop where
  type : ∃ s, Entries.get? "type" members = some (.text s)
  isOptional : ∀ v, Entries.get? "is_optional" members = some v → ∃ b, v.MeansFlag b
  isList : ∀ v, Entries.get? "is_list" members = some v → ∃ b, v.MeansFlag b
  nestedModel : ∀ v, Entries.get? "nested_model" members = some v → v = .null ∨ ∃ s, v = .text s
  only : ∀ key ∈ Entries.keys members, key ∈ declarationKeys

/-- The members of a declaration say this of a field, and nothing else. -/
structure Declares (members : Members) (f : FieldSchema) : Prop where
  type : Entries.get? "type" members = some (.text f.type)
  isOptional : GivesFlag true (Entries.get? "is_optional" members) f.isOptional
  isList : GivesFlag false (Entries.get? "is_list" members) f.isList
  nestedModel : NamesModel (Entries.get? "nested_model" members) f.nestedModel
  only : ∀ key ∈ Entries.keys members, key ∈ declarationKeys

/-- A field is the one of an entry of a table. -/
def DeclaredBy (f : FieldSchema) (entry : String × Value) : Prop :=
  f.name = entry.1 ∧ ∃ members, entry.2 = .mapping members ∧ Declares members f

theorem exists_givesFlag_iff {usual : Bool} {v? : Option Value} :
    (∃ b, GivesFlag usual v? b) ↔ ∀ v, v? = some v → ∃ b, v.MeansFlag b := by
  cases v? with
  | none => simp [givesFlag_none_iff]
  | some v => simp [givesFlag_some_iff]

theorem exists_namesModel_iff {v? : Option Value} :
    (∃ model, NamesModel v? model) ↔ ∀ v, v? = some v → v = .null ∨ ∃ s, v = .text s := by
  constructor
  · rintro ⟨model, h⟩ v rfl
    cases h with
    | null => exact .inl rfl
    | blank => exact .inr ⟨_, rfl⟩
    | text => exact .inr ⟨_, rfl⟩
  · intro h
    cases v? with
    | none => exact ⟨none, .missing⟩
    | some v =>
      rcases h v rfl with rfl | ⟨s, rfl⟩
      · exact ⟨none, .null⟩
      · cases hblank : Text.isBlankText s with
        | true => exact ⟨none, .blank hblank⟩
        | false => exact ⟨some s, .text hblank⟩

theorem Declares.valid {members : Members} {f : FieldSchema} (h : Declares members f) :
    ValidDeclaration members :=
  ⟨⟨f.type, h.type⟩, exists_givesFlag_iff.1 ⟨_, h.isOptional⟩, exists_givesFlag_iff.1 ⟨_, h.isList⟩,
    exists_namesModel_iff.1 ⟨_, h.nestedModel⟩, h.only⟩

/-- A declaration in order declares a field of every name. -/
theorem ValidDeclaration.exists_declares {members : Members} (h : ValidDeclaration members)
    (name : String) : ∃ f : FieldSchema, f.name = name ∧ Declares members f := by
  obtain ⟨type, htype⟩ := h.type
  obtain ⟨isOptional, hoptional⟩ := exists_givesFlag_iff.2 h.isOptional
  obtain ⟨isList, hlist⟩ := exists_givesFlag_iff.2 h.isList
  obtain ⟨model, hmodel⟩ := exists_namesModel_iff.2 h.nestedModel
  exact ⟨⟨name, type, isOptional, isList, model⟩, rfl, htype, hoptional, hlist, hmodel, h.only⟩

/-- The field of a declaration with the name of the field put in front. -/
theorem ofDeclaration_cons_name_eq_ok_iff {name : String} {members : Members} {f : FieldSchema}
    (hname : "name" ∉ Entries.keys members) :
    ofDeclaration (("name", .text name) :: members) = .ok f ↔
      f.name = name ∧ Declares members f := by
  have hget (key : String) (hne : "name" ≠ key) :
      Entries.get? key (("name", .text name) :: members) = Entries.get? key members := if_neg hne
  have honly : (∀ key ∈ Entries.keys (("name", .text name) :: members),
      key ∈ "name" :: declarationKeys) ↔ ∀ key ∈ Entries.keys members, key ∈ declarationKeys := by
    rw [Entries.keys, List.map_cons, List.forall_mem_cons]
    constructor
    · rintro ⟨-, h⟩ key hkey
      exact (List.mem_cons.1 (h key hkey)).resolve_left fun heq => hname (heq ▸ hkey)
    · intro h
      exact ⟨List.mem_cons_self, fun key hkey => List.mem_cons_of_mem _ (h key hkey)⟩
  rw [ofDeclaration, exceptMap_eq_ok_iff]
  simp only [Checked.both_eq_ok_iff, required_eq_ok_iff, text_eq_ok_iff, optional_flag_eq_ok_iff,
    optional_nestedModel_eq_ok_iff, onlyMembers_eq_ok_iff]
  rw [hget "type" (by decide), hget "is_optional" (by decide), hget "is_list" (by decide),
    hget "nested_model" (by decide)]
  constructor
  · rintro ⟨⟨s, type, isOptional, isList, model, u⟩, ⟨⟨_, hs, rfl⟩, ⟨_, htype, rfl⟩, hoptional,
      hlist, hmodel, hkeys⟩, rfl⟩
    have hs : name = s := Value.text.inj (Option.some.inj hs)
    exact ⟨hs.symm, htype, hoptional, hlist, hmodel, honly.1 hkeys⟩
  · rintro ⟨rfl, h⟩
    refine ⟨⟨f.name, f.type, f.isOptional, f.isList, f.nestedModel, ()⟩, ?_, rfl⟩
    exact ⟨⟨_, rfl, rfl⟩, ⟨_, h.type, rfl⟩, h.isOptional, h.isList, h.nestedModel, honly.2 h.only⟩

end FieldSchema

namespace Registry

/-! ## Loading -/

theorem loadField_eq_ok_iff {model name : String} {members : Members} {f : FieldSchema} :
    loadField model name members = .ok f ↔ f.name = name ∧ f.Declares members := by
  rw [loadField]
  by_cases hname : (Entries.get? "name" members).isSome = true
  · rw [if_pos hname]
    refine ⟨nofun, ?_⟩
    rintro ⟨-, h⟩
    exact absurd (h.only "name" (Entries.mem_keys_iff_get?.2 hname)) (by decide)
  · rw [if_neg hname, ← FieldSchema.ofDeclaration_cons_name_eq_ok_iff
      (Entries.mem_keys_iff_get?.not.2 hname)]
    cases FieldSchema.ofDeclaration (("name", .text name) :: members) <;> simp

/-- The fields of a table are declared by its entries, one by each. -/
theorem loadFields_eq_ok_iff {model : String} {table : Members} {fields : List FieldSchema} :
    loadFields model table = .ok fields ↔
      List.Forall₂ (fun entry f => FieldSchema.DeclaredBy f entry) table fields := by
  induction table generalizing fields with
  | nil => simp [loadFields, eq_comm]
  | cons entry table ih =>
    obtain ⟨name, v⟩ := entry
    rw [List.forall₂_cons_left_iff]
    rcases v.mapping_or_not with ⟨members, rfl⟩ | hv
    · rw [loadFields]
      simp only [exceptBind_eq_ok_iff, loadField_eq_ok_iff, ih, Except.ok.injEq]
      constructor
      · rintro ⟨f, ⟨hname, hf⟩, fs, hfs, rfl⟩
        exact ⟨f, fs, ⟨hname, members, rfl, hf⟩, hfs, rfl⟩
      · rintro ⟨f, fs, ⟨hname, _, ⟨⟩, hf⟩, hfs, rfl⟩
        exact ⟨f, ⟨hname, hf⟩, fs, hfs, rfl⟩
    · rw [loadFields.eq_3 _ _ _ _ hv]
      refine ⟨nofun, ?_⟩
      rintro ⟨f, fs, ⟨-, members, rfl, -⟩, -⟩
      exact absurd rfl (hv members)

end Registry

/-- A record type is the one of an entry of a catalog. -/
structure Model.DeclaredBy (m : Model) (entry : String × Value) : Prop where
  name : m.name = entry.1
  notPrimitive : entry.1 ∉ primitiveTypes
  table : ∃ table, entry.2 = .mapping table ∧
    List.Forall₂ (fun entry f => FieldSchema.DeclaredBy f entry) table m.fields

/-- Declared fields have the keys of their declarations for names. -/
theorem FieldSchema.names_eq_keys {table : Members} {fields : List FieldSchema}
    (h : List.Forall₂ (fun entry f => FieldSchema.DeclaredBy f entry) table fields) :
    fields.map FieldSchema.name = Entries.keys table :=
  map_eq_of_forall₂ h fun _ _ hf => hf.1

/-- Declared record types have the keys of their tables for names. -/
theorem Model.names_eq_keys {catalog : Members} {models : List Model}
    (h : List.Forall₂ (fun entry m => Model.DeclaredBy m entry) catalog models) :
    models.map Model.name = Entries.keys catalog :=
  map_eq_of_forall₂ h fun _ _ hm => hm.name

namespace Registry

/-- All entries of a table that declares fields are mappings. -/
theorem firstNonMapping?_eq_none {table : Members} {fields : List FieldSchema}
    (h : List.Forall₂ (fun entry f => FieldSchema.DeclaredBy f entry) table fields) :
    firstNonMapping? table = none := by
  rw [firstNonMapping?, List.findSome?_eq_none_iff]
  rintro ⟨name, v⟩ hentry
  obtain ⟨f, -, -, members, rfl, -⟩ := exists_of_mem_forall₂_left h hentry
  rfl

theorem loadModel_eq_ok_iff {entry : String × Value} {m : Model} :
    loadModel entry.1 entry.2 = .ok m ↔ m.DeclaredBy entry := by
  obtain ⟨name, v⟩ := entry
  constructor
  · intro h
    change loadModel name v = .ok m at h
    rw [loadModel.eq_def] at h
    split at h
    · cases h
    · next hname =>
      split at h
      · next table =>
        split at h
        · cases h
        · obtain ⟨fields, hfields, rfl⟩ := exceptMap_eq_ok_iff.1 h
          exact ⟨rfl, by simpa using hname, table, rfl, loadFields_eq_ok_iff.1 hfields⟩
      · cases h
  · rintro ⟨rfl, hname, table, rfl, hfields⟩
    have hcontains : ¬ primitiveTypes.contains m.name = true := by simpa using hname
    rw [loadModel, if_neg hcontains]
    simp only [firstNonMapping?_eq_none hfields, loadFields_eq_ok_iff.2 hfields]
    rfl

/-- The record types of a catalog are declared by its entries, one by each. -/
theorem loadModels_eq_ok_iff {catalog : Members} {models : List Model} :
    loadModels catalog = .ok models ↔
      List.Forall₂ (fun entry m => Model.DeclaredBy m entry) catalog models := by
  induction catalog generalizing models with
  | nil => simp [loadModels, eq_comm]
  | cons entry catalog ih =>
    rw [List.forall₂_cons_left_iff, loadModels]
    simp only [exceptBind_eq_ok_iff, loadModel_eq_ok_iff, ih, Except.ok.injEq]
    constructor
    · rintro ⟨m, hm, ms, hms, rfl⟩
      exact ⟨m, ms, hm, hms, rfl⟩
    · rintro ⟨m, ms, hm, hms, rfl⟩
      exact ⟨m, hm, ms, hms, rfl⟩

end Registry
end RecordProjection
