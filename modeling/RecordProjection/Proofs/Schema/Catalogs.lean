import Mathlib.Data.List.Perm.Basic
import RecordProjection.Proofs.Schema.Loading

/-!
# Catalogs that are registries

A catalog is a registry when each of its entries is in order: its record type is not called like a
primitive type, and it declares fields that refer to nothing but record types of the same catalog,
wherever these stand in it. The registry then lists what the catalog declares. The order of the
record types is of no account.

## Main definitions

* `WellFormedCatalog` : every entry of a catalog is in order, and refers to entries of the catalog.
* `Registry.Lists` : the answers of a registry are what a catalog declares.
* `Registry.SameAnswers` : two registries cannot be told apart by looking up.
-/
namespace RecordProjection

namespace FieldSchema
variable {f : FieldSchema}

/-! ## References -/

/-- A declaration refers to a record type: its type is not primitive, or it names one that is not
blank for the value of its field. -/
inductive RefersTo (members : Members) (s : String) : Prop
  | type (h : Entries.get? "type" members = some (.text s)) (notPrimitive : s ∉ primitiveTypes)
  | nestedModel (h : Entries.get? "nested_model" members = some (.text s))
      (notBlank : Text.isBlankText s = false)

/-- A field refers to what its declaration refers to. -/
theorem Declares.mem_references_iff {members : Members} (h : Declares members f) {s : String} :
    s ∈ f.references ↔ RefersTo members s := by
  rw [FieldSchema.mem_references_iff, h.nestedModel.eq_some_iff]
  constructor
  · rintro (⟨hs, hblank⟩ | ⟨rfl, hprimitive⟩)
    · exact .nestedModel hs hblank
    · exact .type h.type hprimitive
  · rintro (⟨hs, hprimitive⟩ | ⟨hs, hblank⟩)
    · obtain rfl : f.type = s := by simpa [h.type] using hs
      exact .inr ⟨rfl, hprimitive⟩
    · exact .inl ⟨hs, hblank⟩

end FieldSchema

/-! ## Acceptance -/

/-- An entry of a catalog is in order when its record type is not called like a primitive type and
its value is a table of declarations in order that refer to nothing but these names. -/
structure WellFormedEntry (names : List String) (entry : String × Value) : Prop where
  notPrimitive : entry.1 ∉ primitiveTypes
  table : ∃ table, entry.2 = .mapping table ∧ ∀ e ∈ table, ∃ members, e.2 = .mapping members ∧
    FieldSchema.ValidDeclaration members ∧ ∀ s, FieldSchema.RefersTo members s → s ∈ names

/-- Every entry of a catalog is in order, and refers to nothing but entries of the catalog. -/
def WellFormedCatalog (catalog : Members) : Prop :=
  ∀ entry ∈ catalog, WellFormedEntry (Entries.keys catalog) entry

/-- An entry in order declares a record type that refers to nothing else. -/
theorem wellFormedEntry_iff {names : List String} {entry : String × Value} :
    WellFormedEntry names entry ↔
      ∃ m : Model, m.DeclaredBy entry ∧ ∀ f ∈ m.fields, ∀ s ∈ f.references, s ∈ names := by
  constructor
  · rintro ⟨hname, table, htable, hdeclarations⟩
    have hfield : ∀ e ∈ table, ∃ f : FieldSchema, f.DeclaredBy e ∧
        ∀ s ∈ f.references, s ∈ names := by
      intro e he
      obtain ⟨members, hmembers, hvalid, hrefers⟩ := hdeclarations e he
      obtain ⟨f, hf, hdeclares⟩ := hvalid.exists_declares e.1
      refine ⟨f, ⟨hf, members, hmembers, hdeclares⟩, fun s hs => ?_⟩
      exact hrefers s (hdeclares.mem_references_iff.1 hs)
    obtain ⟨fields, hfields, hrefers⟩ := exists_forall₂_of_forall hfield
    exact ⟨⟨entry.1, fields⟩, ⟨rfl, hname, table, htable, hfields⟩, hrefers⟩
  · rintro ⟨m, hm, hrefers⟩
    obtain ⟨table, htable, hfields⟩ := hm.table
    refine ⟨hm.notPrimitive, table, htable, fun e he => ?_⟩
    obtain ⟨f, hf, -, members, hmembers, hdeclares⟩ := exists_of_mem_forall₂_left hfields he
    refine ⟨members, hmembers, hdeclares.valid, fun s hs => ?_⟩
    exact hrefers f hf s (hdeclares.mem_references_iff.2 hs)

/-- The order of the entries is of no account. -/
theorem WellFormedCatalog.perm {catalog catalog' : Members} (h : WellFormedCatalog catalog)
    (hperm : catalog.Perm catalog') : WellFormedCatalog catalog' := by
  intro entry hentry
  have hkeys : ∀ s ∈ Entries.keys catalog, s ∈ Entries.keys catalog' :=
    fun s hs => (hperm.map Prod.fst).mem_iff.1 hs
  obtain ⟨m, hm, hrefers⟩ := wellFormedEntry_iff.1 (h entry (hperm.mem_iff.2 hentry))
  exact wellFormedEntry_iff.2 ⟨m, hm, fun f hf s hs => hkeys s (hrefers f hf s hs)⟩

namespace Registry
variable {r r' : Registry} {catalog catalog' : Members}

theorem ofModels_models (r : Registry) : ofModels r.models = .ok r := by
  rw [ofModels]
  split
  · next h => simp [r.closed] at h
  · rfl

/-- The registry of a catalog has the record types that the catalog declares, in their order. -/
theorem ofCatalog_eq_ok_iff : ofCatalog catalog = .ok r ↔
    List.Forall₂ (fun entry m => Model.DeclaredBy m entry) catalog r.models := by
  rw [← loadModels_eq_ok_iff]
  constructor
  · intro h
    obtain ⟨models, hmodels, h⟩ := exceptBind_eq_ok_iff.1 h
    rw [models_of_ofModels h, hmodels]
  · intro h
    exact exceptBind_eq_ok_iff.2 ⟨r.models, h, ofModels_models r⟩

theorem names_of_ofCatalog (h : ofCatalog catalog = .ok r) :
    r.models.map Model.name = Entries.keys catalog :=
  Model.names_eq_keys (ofCatalog_eq_ok_iff.1 h)

/-- A catalog is a registry just when all its entries are in order. -/
theorem exists_ofCatalog_iff : (∃ r, ofCatalog catalog = .ok r) ↔ WellFormedCatalog catalog := by
  constructor
  · rintro ⟨r, h⟩ entry hentry
    obtain ⟨m, hm, hdeclared⟩ := exists_of_mem_forall₂_left (ofCatalog_eq_ok_iff.1 h) hentry
    have hclosed := danglingReference?_eq_none_iff.1 r.closed m hm
    rw [names_of_ofCatalog h] at hclosed
    exact wellFormedEntry_iff.2 ⟨m, hdeclared, hclosed⟩
  · intro h
    obtain ⟨models, hmodels, hrefers⟩ := exists_forall₂_of_forall
      fun entry hentry => wellFormedEntry_iff.1 (h entry hentry)
    have hclosed : danglingReference? models = none :=
      danglingReference?_eq_none_iff.2 (Model.names_eq_keys hmodels ▸ hrefers)
    exact ⟨⟨models, hclosed⟩, ofCatalog_eq_ok_iff.2 hmodels⟩

/-! ## Refusal -/

end Registry

/-- A fault is found in a catalog: what it says is wrong is so, of the record type and the field
that it names. -/
inductive CatalogFault.FoundIn (catalog : Members) : CatalogFault → Prop
  | primitiveName {model : String} {v : Value} (hmodel : (model, v) ∈ catalog)
      (h : model ∈ primitiveTypes) : FoundIn catalog (.primitiveName model)
  | tableNotMapping {model : String} {v : Value} (hmodel : (model, v) ∈ catalog)
      (h : ∀ table, v ≠ .mapping table) : FoundIn catalog (.tableNotMapping model)
  | declarationNotMapping {model field : String} {table : Members} {v : Value}
      (hmodel : (model, .mapping table) ∈ catalog) (hfield : (field, v) ∈ table)
      (h : ∀ members, v ≠ .mapping members) : FoundIn catalog (.declarationNotMapping model field)
  | nameDeclared {model field : String} {table members : Members}
      (hmodel : (model, .mapping table) ∈ catalog) (hfield : (field, .mapping members) ∈ table)
      (h : "name" ∈ Entries.keys members) : FoundIn catalog (.nameDeclared model)
  | invalidField {model field : String} {table members : Members} {faults : List Fault}
      (hmodel : (model, .mapping table) ∈ catalog) (hfield : (field, .mapping members) ∈ table)
      (h : FieldSchema.ofDeclaration (("name", .text field) :: members) = .error faults) :
      FoundIn catalog (.invalidField model faults)
  | unknownReference {model field reference : String} {table members : Members}
      (hmodel : (model, .mapping table) ∈ catalog) (hfield : (field, .mapping members) ∈ table)
      (h : FieldSchema.RefersTo members reference) (hunknown : reference ∉ Entries.keys catalog) :
      FoundIn catalog (.unknownReference field model reference)

namespace Registry
variable {r r' : Registry} {catalog catalog' : Members}

theorem firstNonMapping?_eq_some {table : Members} {field : String}
    (h : firstNonMapping? table = some field) :
    ∃ v, (field, v) ∈ table ∧ ∀ members, v ≠ .mapping members := by
  obtain ⟨⟨name, v⟩, hentry, hv⟩ := List.exists_of_findSome?_eq_some h
  dsimp only at hv
  split at hv
  · cases hv
  · next hmapping =>
    obtain rfl := Option.some.inj hv
    exact ⟨v, hentry, hmapping⟩

/-- A table that cannot be loaded has a declaration that is at fault. -/
theorem foundIn_of_loadFields {model : String} {table part : Members} {fault : CatalogFault}
    (hmodel : (model, .mapping table) ∈ catalog) (hpart : ∀ e ∈ part, e ∈ table)
    (h : loadFields model part = .error fault) : fault.FoundIn catalog := by
  -- what is still to be loaded shrinks, but faults are found in the table that it is a part of
  induction part with
  | nil => cases h
  | cons entry part ih =>
    obtain ⟨field, v⟩ := entry
    have hfield : (field, v) ∈ table := hpart _ List.mem_cons_self
    rcases v.mapping_or_not with ⟨members, rfl⟩ | hv
    · rw [loadFields] at h
      rcases exceptBind_eq_error_iff.1 h with h | ⟨f, -, h⟩
      · rw [loadField] at h
        split at h
        · next hname =>
          exact Except.error.inj h ▸
            .nameDeclared hmodel hfield (Entries.mem_keys_iff_get?.2 hname)
        · split at h
          · next faults hfaults => exact Except.error.inj h ▸ .invalidField hmodel hfield hfaults
          · cases h
      · rcases exceptBind_eq_error_iff.1 h with h | ⟨fs, -, h⟩
        · exact ih (fun e he => hpart e (List.mem_cons_of_mem _ he)) h
        · cases h
    · rw [loadFields.eq_3 _ _ _ _ hv] at h
      exact Except.error.inj h ▸ .declarationNotMapping hmodel hfield hv

theorem foundIn_of_loadModel {model : String} {v : Value} {fault : CatalogFault}
    (hmodel : (model, v) ∈ catalog) (h : loadModel model v = .error fault) :
    fault.FoundIn catalog := by
  rw [loadModel.eq_def] at h
  split at h
  · next hprimitive =>
    exact Except.error.inj h ▸ .primitiveName hmodel (List.contains_iff_mem.1 hprimitive)
  · split at h
    · next table =>
      split at h
      · next field hfirst =>
        obtain ⟨v, hfield, hv⟩ := firstNonMapping?_eq_some hfirst
        exact Except.error.inj h ▸ .declarationNotMapping hmodel hfield hv
      · exact foundIn_of_loadFields hmodel (fun _ => id) (exceptMap_eq_error_iff.1 h)
    · next hv => exact Except.error.inj h ▸ .tableNotMapping hmodel hv

theorem foundIn_of_loadModels {part : Members} {fault : CatalogFault}
    (hpart : ∀ entry ∈ part, entry ∈ catalog) (h : loadModels part = .error fault) :
    fault.FoundIn catalog := by
  induction part with
  | nil => cases h
  | cons entry part ih =>
    rw [loadModels] at h
    rcases exceptBind_eq_error_iff.1 h with h | ⟨m, -, h⟩
    · exact foundIn_of_loadModel (hpart _ List.mem_cons_self) h
    · rcases exceptBind_eq_error_iff.1 h with h | ⟨ms, -, h⟩
      · exact ih (fun e he => hpart e (List.mem_cons_of_mem _ he)) h
      · cases h

theorem exists_of_danglingReference? {models : List Model} {model field reference : String}
    (h : danglingReference? models = some (model, field, reference)) :
    ∃ m ∈ models, m.name = model ∧ ∃ f ∈ m.fields, f.name = field ∧ reference ∈ f.references ∧
      reference ∉ models.map Model.name := by
  obtain ⟨m, hm, h⟩ := List.exists_of_findSome?_eq_some h
  obtain ⟨f, hf, h⟩ := List.exists_of_findSome?_eq_some h
  obtain ⟨s, hs, heq⟩ := Option.map_eq_some_iff.1 h
  obtain ⟨rfl, rfl, rfl⟩ : m.name = model ∧ f.name = field ∧ s = reference := by simpa using heq
  have hunknown := List.find?_some hs
  exact ⟨m, hm, rfl, f, hf, rfl, List.mem_of_find?_eq_some hs, by simpa using hunknown⟩

/-- A catalog is refused for a fault that is found in it. -/
theorem foundIn_of_ofCatalog {fault : CatalogFault} (h : ofCatalog catalog = .error fault) :
    fault.FoundIn catalog := by
  rcases exceptBind_eq_error_iff.1 h with h | ⟨models, hmodels, h⟩
  · exact foundIn_of_loadModels (fun _ => id) h
  · have hlist := loadModels_eq_ok_iff.1 hmodels
    rw [ofModels] at h
    split at h
    · next model field reference hdangling =>
      obtain ⟨m, hm, rfl, f, hf, rfl, href, hunknown⟩ := exists_of_danglingReference? hdangling
      obtain ⟨⟨name, v⟩, hentry, hdeclared⟩ := exists_of_mem_forall₂ hlist hm
      obtain ⟨table, rfl, hfields⟩ := hdeclared.table
      obtain ⟨⟨field, v⟩, hfield, hname, members, rfl, hdeclares⟩ :=
        exists_of_mem_forall₂ hfields hf
      obtain rfl : m.name = name := hdeclared.name
      obtain rfl : f.name = field := hname
      rw [Model.names_eq_keys hlist] at hunknown
      exact Except.error.inj h ▸
        .unknownReference hentry hfield (hdeclares.mem_references_iff.1 href) hunknown
    · cases h

/-! ## Looking up -/

/-- The field of an entry of a table is found under its name. -/
theorem field?_of_declaredBy {m : Model} {table : Members} (hkeys : (Entries.keys table).Nodup)
    (hfields : List.Forall₂ (fun entry f => FieldSchema.DeclaredBy f entry) table m.fields)
    {entry : String × Value} (hentry : entry ∈ table) :
    ∃ f, m.field? entry.1 = some f ∧ f.DeclaredBy entry := by
  obtain ⟨f, hf, hdeclared⟩ := exists_of_mem_forall₂_left hfields hentry
  refine ⟨f, ?_, hdeclared⟩
  rw [← FieldSchema.names_eq_keys hfields] at hkeys
  rw [Model.field?, ← hdeclared.1]
  exact Entries.find?_of_nodup hkeys hf

/-- The answers of a registry are what a catalog declares: its record types, each with its fields
in their order, and no others. -/
structure Lists (r : Registry) (catalog : Members) : Prop where
  contains : ∀ name, r.contains name = true ↔ name ∈ Entries.keys catalog
  modelNames_perm : r.modelNames.Perm (Entries.keys catalog)
  modelNames_sorted : r.modelNames.Pairwise (· ≤ ·)
  model : ∀ entry ∈ catalog, ∃ m, r.model entry.1 = .ok m ∧ m.DeclaredBy entry
  unknownModel : ∀ name ∉ Entries.keys catalog, r.model name = .error (.unknownModel name)
  field : ∀ entry ∈ catalog, ∀ table, entry.2 = .mapping table → ∀ e ∈ table,
    ∃ f, r.field entry.1 e.1 = .ok f ∧ f.DeclaredBy e

/-- Two registries cannot be told apart by looking up. -/
structure SameAnswers (r r' : Registry) : Prop where
  contains : ∀ name, r.contains name = r'.contains name
  modelNames : r.modelNames = r'.modelNames
  model : ∀ name, r.model name = r'.model name
  field : ∀ model name, r.field model name = r'.field model name
  fieldNames : ∀ name, (r.model name).map Model.fieldNames = (r'.model name).map Model.fieldNames

theorem lists_of_ofCatalog (hcatalog : (Value.mapping catalog).DistinctKeys)
    (h : ofCatalog catalog = .ok r) : r.Lists catalog := by
  have hnames := names_of_ofCatalog h
  have hnodup : (r.models.map Model.name).Nodup := hnames ▸ hcatalog.keys
  have hmodel : ∀ entry ∈ catalog, ∃ m, r.find? entry.1 = some m ∧ m.DeclaredBy entry := by
    intro entry hentry
    obtain ⟨m, hm, hdeclared⟩ := exists_of_mem_forall₂_left (ofCatalog_eq_ok_iff.1 h) hentry
    refine ⟨m, ?_, hdeclared⟩
    rw [find?, ← hdeclared.name]
    exact Entries.find?_of_nodup hnodup hm
  have hcontains (name : String) : r.contains name = true ↔ name ∈ Entries.keys catalog := by
    rw [Registry.contains, find?, List.find?_isSome, ← hnames, List.mem_map]
    simp only [beq_iff_eq]
  constructor
  · exact hcontains
  · exact hnames ▸ List.mergeSort_perm _ _
  · exact pairwise_mergeSort_by id _
  · intro entry hentry
    obtain ⟨m, hm, hdeclared⟩ := hmodel entry hentry
    exact ⟨m, by rw [Registry.model, hm], hdeclared⟩
  · intro name hname
    have hnone : r.find? name = none := by
      simpa [Registry.contains] using (hcontains name).not.2 hname
    rw [Registry.model, hnone]
  · intro entry hentry table htable e he
    obtain ⟨m, hm, hdeclared⟩ := hmodel entry hentry
    obtain ⟨table', htable', hfields⟩ := hdeclared.table
    obtain rfl := Value.mapping.inj (htable.symm.trans htable')
    have htable : (Entries.keys table).Nodup := (htable ▸ hcatalog.member entry hentry).keys
    obtain ⟨f, hf, hfield⟩ := field?_of_declaredBy htable hfields he
    exact ⟨f, by simp only [Registry.field, Registry.model, hm, hf], hfield⟩

/-- Catalogs with the same entries give registries with the same record types. -/
theorem models_perm (hperm : catalog.Perm catalog') (h : ofCatalog catalog = .ok r)
    (h' : ofCatalog catalog' = .ok r') : r.models.Perm r'.models := by
  obtain ⟨models, hmodels, hperm⟩ := List.perm_comp_forall₂ hperm (ofCatalog_eq_ok_iff.1 h')
  have heq : loadModels catalog = .ok r.models := loadModels_eq_ok_iff.2 (ofCatalog_eq_ok_iff.1 h)
  rw [loadModels_eq_ok_iff.2 hmodels] at heq
  exact Except.ok.inj heq ▸ hperm

theorem sameAnswers_of_perm (hkeys : (Entries.keys catalog).Nodup) (hperm : catalog.Perm catalog')
    (h : ofCatalog catalog = .ok r) (h' : ofCatalog catalog' = .ok r') : r.SameAnswers r' := by
  have hmodels := models_perm hperm h h'
  have hnodup : (r.models.map Model.name).Nodup := names_of_ofCatalog h ▸ hkeys
  have hfind (name : String) : r.find? name = r'.find? name :=
    Entries.find?_of_perm hnodup hmodels name
  have hmodel (name : String) : r.model name = r'.model name := by
    rw [Registry.model, Registry.model, hfind]
  constructor
  · intro name
    rw [Registry.contains, Registry.contains, hfind]
  · have hnames : r.modelNames.Perm r'.modelNames :=
      (List.mergeSort_perm _ _).trans ((hmodels.map _).trans (List.mergeSort_perm _ _).symm)
    refine hnames.eq_of_pairwise ?_ (pairwise_mergeSort_by id _) (pairwise_mergeSort_by id _)
    intro a b _ _ hab hba
    exact String.le_antisymm hab hba
  · exact hmodel
  · intro model name
    rw [Registry.field, Registry.field, hmodel]
  · intro name
    rw [hmodel]

/-- A catalog is a registry just when every entry is in order and refers to nothing but entries of
the catalog, and is refused as an invalid catalog otherwise, for a fault that is found in it. The
registry lists what the catalog declares. Neither whether there is a registry nor what it answers
depends on the order of the record types. -/
theorem ofCatalog_wellFormed {catalog : Members} (hcatalog : (Value.mapping catalog).DistinctKeys) :
    ((∃ r, ofCatalog catalog = .ok r) ↔ WellFormedCatalog catalog) ∧
    (¬ WellFormedCatalog catalog ↔ ∃ fault, ofCatalog catalog = .error fault ∧
      fault.FoundIn catalog ∧ (SchemaError.invalidCatalog fault).code = "INVALID_CATALOG") ∧
    (∀ r, ofCatalog catalog = .ok r → r.Lists catalog) ∧
    ∀ catalog', catalog.Perm catalog' →
      ((∃ r', ofCatalog catalog' = .ok r') ↔ ∃ r, ofCatalog catalog = .ok r) ∧
      ∀ r r', ofCatalog catalog = .ok r → ofCatalog catalog' = .ok r' → r.SameAnswers r' := by
  refine ⟨exists_ofCatalog_iff, ?_, fun r => lists_of_ofCatalog hcatalog, ?_⟩
  · rw [← exists_ofCatalog_iff]
    cases h : ofCatalog catalog with
    | ok r => simp
    | error fault => simp [foundIn_of_ofCatalog h, SchemaError.code]
  · intro catalog' hperm
    refine ⟨?_, fun r r' => sameAnswers_of_perm hcatalog.keys hperm⟩
    rw [exists_ofCatalog_iff, exists_ofCatalog_iff]
    exact ⟨fun h => h.perm hperm.symm, fun h => h.perm hperm⟩

/-- Teams of people, who are declared behind them and have bosses. -/
def teams : Members :=
  [("Team", .mapping [("lead", .mapping [("type", .text "Person")])]),
    ("Person", .mapping [("boss", .mapping [("type", .text "Person"), ("nested_model", .text " ")]),
      ("teams", .mapping [("nested_model", .text "Team"), ("type", .text "dict"),
        ("is_list", .int 1)])])]

theorem distinctKeys_teams : (Value.mapping teams).DistinctKeys := by
  have htext (s : String) : (Value.text s).DistinctKeys := .scalar nofun nofun
  have hint (n : Int) : (Value.int n).DistinctKeys := .scalar nofun nofun
  have hteam : (Value.mapping [("lead", .mapping [("type", .text "Person")])]).DistinctKeys :=
    .mapping (by decide) (List.forall_mem_singleton.2 (.mapping (by decide) (by simp [htext])))
  have hboss : (Value.mapping [("type", .text "Person"),
      ("nested_model", .text " ")]).DistinctKeys := .mapping (by decide) (by simp [htext])
  have hteams : (Value.mapping [("nested_model", .text "Team"), ("type", .text "dict"),
      ("is_list", .int 1)]).DistinctKeys := .mapping (by decide) (by simp [htext, hint])
  refine .mapping (by decide) (List.forall_mem_cons.2 ⟨hteam, List.forall_mem_singleton.2 ?_⟩)
  exact .mapping (by decide) (List.forall_mem_cons.2 ⟨hboss, List.forall_mem_singleton.2 hteams⟩)

/-- A record type may refer to itself and to one behind it; a blank reference is none. -/
theorem ofCatalog_teams : (Value.mapping teams).DistinctKeys ∧ WellFormedCatalog teams ∧
    ∃ r r', ofCatalog teams = .ok r ∧ ofCatalog teams.reverse = .ok r' ∧ r.Lists teams ∧
      r.SameAnswers r' ∧ r.field "Person" "boss" = .ok ⟨"boss", "Person", true, false, none⟩ := by
  obtain ⟨haccepts, -, hlists, hperm⟩ := ofCatalog_wellFormed distinctKeys_teams
  have hr := Eq.refl (ofCatalog teams)
  have hr' := Eq.refl (ofCatalog teams.reverse)
  refine ⟨distinctKeys_teams, haccepts.1 ⟨_, hr⟩, _, _, hr, hr', hlists _ hr, ?_, rfl⟩
  exact (hperm _ (List.reverse_perm teams).symm).2 _ _ hr hr'

end Registry
end RecordProjection
