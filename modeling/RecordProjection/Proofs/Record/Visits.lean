import RecordProjection.Proofs.Descriptor.Levels

/-!
# What a walk comes to

The values that a descriptor is about, in the order in which a walk along it comes to them: a
record as a whole, then its fields in the order of the descriptor, each with everything inside it,
and the items of a list by their index. They are the values at the ends of those paths that the
descriptor leads along.

## Main definitions

* `Value.follow?` : what stands at the end of a path through members and items.
* `Need` : what a walk needs a value for.
* `Descriptor.visits` : the values that a walk comes to, in its order.
* `Descriptor.Leads` : the paths that a descriptor leads along, and what it needs at their ends.
-/
namespace RecordProjection

/-- What stands at the end of a path, if the path leads anywhere. -/
def Value.follow? : List Step → Value → Option Value
  | [], v => some v
  | .member key :: path, .mapping members => (Entries.get? key members).bind (follow? path)
  | .item i :: path, .list items => items[i]?.bind (follow? path)
  | _ :: _, _ => none

/-- What a walk needs a value for: as a record that a descriptor is applied to, as the value of a
field of an outer descriptor that an inner one is applied to, or as a scalar of a type. -/
inductive Need
  | record (d : Descriptor)
  | member (outer : Descriptor) (f : ResolvedField) (inner : Descriptor)
  | scalar (type : String)

/-- A value that a walk comes to: the way there, and what the value is needed for. -/
structure Visit where
  path : List Step
  need : Need
  value : Value

/-- A visit, seen from one step further out. -/
def Visit.under (step : Step) (x : Visit) : Visit := { x with path := step :: x.path }

/-- The values that reading a field without a descriptor of its own comes to. -/
def plainVisits (source : FieldSchema) (v : Value) : List Visit :=
  if source.isList then
    match v with
    | .list items => items.zipIdx.map fun (item, i) => ⟨[.item i], .scalar source.type, item⟩
    | _ => []
  else [⟨[], .scalar source.type, v⟩]

mutual

/-- The values that a walk comes to inside a record. -/
def Descriptor.inside : Descriptor → Value → List Visit
  | ⟨model, fields, isFlat, isFlatLists⟩, v =>
    match v with
    | .mapping members =>
      ResolvedField.allVisits ⟨model, fields, isFlat, isFlatLists⟩ members fields
    | _ => []

/-- The values that a walk comes to at a field, its value first. -/
def ResolvedField.visits (outer : Descriptor) : ResolvedField → Value → List Visit
  | ⟨source, _, _, none⟩, v => plainVisits source v
  | ⟨source, spec, key, some inner⟩, v =>
    if source.isList then
      match v with
      | .list items => items.zipIdx.flatMap fun (item, i) =>
          ((⟨[], .record inner, item⟩ :: inner.inside item).map (Visit.under (.item i)))
      | _ => []
    else ⟨[], .member outer ⟨source, spec, key, some inner⟩ inner, v⟩ :: inner.inside v

/-- The values that a walk comes to at the fields of a record, one after the other. -/
def ResolvedField.allVisits (outer : Descriptor) (members : Members) :
    List ResolvedField → List Visit
  | [] => []
  | f :: fs =>
    match Entries.get? f.source.name members with
    | none => ResolvedField.allVisits outer members fs
    | some v => (f.visits outer v).map (Visit.under (.member f.source.name)) ++
        ResolvedField.allVisits outer members fs

end

/-- The values that a walk comes to, in its order: a record as a whole comes first. -/
def Descriptor.visits (d : Descriptor) (v : Value) : List Visit :=
  ⟨[], .record d, v⟩ :: d.inside v

mutual

/-- A descriptor leads along a path, and needs what it finds there for something. -/
inductive Descriptor.Leads : Descriptor → List Step → Need → Prop
  | top {d : Descriptor} : Descriptor.Leads d [] (.record d)
  | field {d : Descriptor} {f : ResolvedField} {path : List Step} {need : Need} (mem : f ∈ d.fields)
      (h : ResolvedField.Leads d f path need) :
      Descriptor.Leads d (.member f.source.name :: path) need

/-- A field of an outer descriptor leads along a path that goes into its value. What is no list is
needed as the value of the field, and only its inside for the descriptor of the field. -/
inductive ResolvedField.Leads : Descriptor → ResolvedField → List Step → Need → Prop
  | scalar {d : Descriptor} {f : ResolvedField} (plain : f.nested = none)
      (single : f.source.isList = false) : ResolvedField.Leads d f [] (.scalar f.source.type)
  | scalars {d : Descriptor} {f : ResolvedField} (plain : f.nested = none)
      (isList : f.source.isList = true) (i : Nat) :
      ResolvedField.Leads d f [.item i] (.scalar f.source.type)
  | member {d : Descriptor} {f : ResolvedField} {n : Descriptor} (nested : f.nested = some n)
      (single : f.source.isList = false) : ResolvedField.Leads d f [] (.member d f n)
  | inside {d : Descriptor} {f : ResolvedField} {n : Descriptor} {path : List Step} {need : Need}
      (nested : f.nested = some n) (single : f.source.isList = false)
      (h : Descriptor.Leads n path need) (inner : path ≠ []) : ResolvedField.Leads d f path need
  | records {d : Descriptor} {f : ResolvedField} {n : Descriptor} {path : List Step} {need : Need}
      (nested : f.nested = some n) (isList : f.source.isList = true) (i : Nat)
      (h : Descriptor.Leads n path need) : ResolvedField.Leads d f (.item i :: path) need

end

/-! ## Following paths -/

namespace Value

@[simp] theorem follow?_nil (v : Value) : v.follow? [] = some v := by
  rw [follow?]

theorem follow?_member_eq_some_iff {key : String} {path : List Step} {v w : Value} :
    v.follow? (.member key :: path) = some w ↔
      ∃ members u, v = .mapping members ∧ Entries.get? key members = some u ∧
        u.follow? path = some w := by
  cases v with
  | mapping members => simp [follow?, Option.bind_eq_some_iff]
  | _ => simp [follow?]

theorem follow?_item_eq_some_iff {i : Nat} {path : List Step} {v w : Value} :
    v.follow? (.item i :: path) = some w ↔
      ∃ items u, v = .list items ∧ items[i]? = some u ∧ u.follow? path = some w := by
  cases v with
  | list items => simp [follow?, Option.bind_eq_some_iff]
  | _ => simp [follow?]

end Value

/-! ## The visits of fields and records -/

theorem Visit.mem_map_under_iff {xs : List Visit} {step : Step} {path : List Step} {need : Need}
    {w : Value} : ⟨path, need, w⟩ ∈ xs.map (Visit.under step) ↔
      ∃ path', path = step :: path' ∧ ⟨path', need, w⟩ ∈ xs := by
  rw [List.mem_map]
  constructor
  · rintro ⟨⟨path', need', w'⟩, hx, hunder⟩
    obtain ⟨rfl, rfl, rfl⟩ := Visit.mk.inj hunder
    exact ⟨path', rfl, hx⟩
  · rintro ⟨path', rfl, hx⟩
    exact ⟨_, hx, rfl⟩

namespace ResolvedField
variable {outer n : Descriptor} {f : ResolvedField}

theorem visits_of_plain (h : f.nested = none) (v : Value) :
    f.visits outer v = plainVisits f.source v := by
  obtain ⟨source, spec, key, nested⟩ := f
  obtain rfl : nested = none := h
  rfl

theorem visits_of_single (h : f.nested = some n) (hl : f.source.isList = false) (v : Value) :
    f.visits outer v = ⟨[], .member outer f n, v⟩ :: n.inside v := by
  obtain ⟨source, spec, key, nested⟩ := f
  obtain rfl : nested = some n := h
  rw [visits.eq_def]
  exact if_neg (Bool.eq_false_iff.1 hl)

theorem visits_of_list (h : f.nested = some n) (hl : f.source.isList = true) (items : List Value) :
    f.visits outer (.list items) = items.zipIdx.flatMap fun (item, i) =>
      (n.visits item).map (Visit.under (.item i)) := by
  obtain ⟨source, spec, key, nested⟩ := f
  obtain rfl : nested = some n := h
  rw [visits, if_pos hl]
  rfl

theorem visits_of_not_list (h : f.nested = some n) (hl : f.source.isList = true) {v : Value}
    (hv : ∀ items, v ≠ .list items) : f.visits outer v = [] := by
  obtain ⟨source, spec, key, nested⟩ := f
  obtain rfl : nested = some n := h
  rw [visits.eq_def]
  dsimp only
  rw [if_pos hl]
  split
  · exact absurd rfl (hv _)
  · rfl

theorem plainVisits_single {source : FieldSchema} (hl : source.isList = false) (v : Value) :
    plainVisits source v = [⟨[], .scalar source.type, v⟩] := by
  rw [plainVisits.eq_def, hl, if_neg Bool.false_ne_true]

theorem plainVisits_list {source : FieldSchema} (hl : source.isList = true) (items : List Value) :
    plainVisits source (.list items) =
      items.zipIdx.map fun (item, i) => ⟨[.item i], .scalar source.type, item⟩ := by
  rw [plainVisits, if_pos hl]

theorem plainVisits_of_not_list {source : FieldSchema} (hl : source.isList = true) {v : Value}
    (hv : ∀ items, v ≠ .list items) : plainVisits source v = [] := by
  rw [plainVisits.eq_def, if_pos hl]
  split
  · exact absurd rfl (hv _)
  · rfl

/-- What reading a plain field comes to. -/
theorem mem_plainVisits_iff {source : FieldSchema} {v w : Value} {path : List Step} {need : Need} :
    ⟨path, need, w⟩ ∈ plainVisits source v ↔ need = .scalar source.type ∧
      ((source.isList = false ∧ path = [] ∧ w = v) ∨
        (source.isList = true ∧ ∃ i items, v = .list items ∧ path = [.item i] ∧
          items[i]? = some w)) := by
  cases hl : source.isList with
  | false =>
    rw [plainVisits_single hl, List.mem_singleton, Visit.mk.injEq]
    simp only [true_and, Bool.false_eq_true, false_and, or_false]
    constructor
    · rintro ⟨hpath, hneed, hw⟩
      exact ⟨hneed, hpath, hw⟩
    · rintro ⟨hneed, hpath, hw⟩
      exact ⟨hpath, hneed, hw⟩
  | true =>
    simp only [Bool.true_eq_false, false_and, true_and, false_or]
    rcases v.list_or_not with ⟨items, rfl⟩ | hv
    · rw [plainVisits_list hl, List.mem_map]
      constructor
      · rintro ⟨⟨item, i⟩, hitem, hvisit⟩
        obtain ⟨rfl, rfl, rfl⟩ := Visit.mk.inj hvisit
        exact ⟨rfl, i, items, rfl, rfl, List.mk_mem_zipIdx_iff_getElem?.1 hitem⟩
      · rintro ⟨rfl, i, items', hitems, rfl, hw⟩
        obtain rfl := Value.list.inj hitems
        exact ⟨(w, i), List.mk_mem_zipIdx_iff_getElem?.2 hw, rfl⟩
    · rw [plainVisits_of_not_list hl hv]
      constructor
      · intro h
        cases h
      · rintro ⟨-, i, items, hitems, -⟩
        exact absurd hitems (hv items)

/-- The visits of the fields of a record are those of its fields whose sources are there. -/
theorem mem_allVisits_iff {outer : Descriptor} {members : Members} {fs : List ResolvedField}
    {path : List Step} {need : Need} {w : Value} :
    ⟨path, need, w⟩ ∈ allVisits outer members fs ↔ ∃ f ∈ fs, ∃ v path',
      Entries.get? f.source.name members = some v ∧ path = .member f.source.name :: path' ∧
        ⟨path', need, w⟩ ∈ f.visits outer v := by
  induction fs with
  | nil => simp [allVisits]
  | cons f fs ih =>
    rw [List.exists_mem_cons_iff, ← ih, allVisits]
    cases hv : Entries.get? f.source.name members with
    | none => simp
    | some v => simp [Visit.mem_map_under_iff]

end ResolvedField

namespace Descriptor

theorem inside_mapping (d : Descriptor) (members : Members) :
    d.inside (.mapping members) = ResolvedField.allVisits d members d.fields := by
  cases d
  rfl

theorem inside_of_not_mapping (d : Descriptor) {v : Value} (h : ∀ members, v ≠ .mapping members) :
    d.inside v = [] := by
  obtain ⟨model, fields, isFlat, isFlatLists⟩ := d
  cases v with
  | mapping members => exact absurd rfl (h members)
  | _ => rfl

end Descriptor

/-! ## The paths of a descriptor -/

theorem Descriptor.leads_nil_iff {d : Descriptor} {need : Need} :
    d.Leads [] need ↔ need = .record d := by
  constructor
  · intro h
    cases h
    rfl
  · rintro rfl
    exact .top

namespace ResolvedField
variable {outer n : Descriptor} {f : ResolvedField} {path : List Step} {need : Need}

theorem leads_iff_of_plain (h : f.nested = none) : f.Leads outer path need ↔
    need = .scalar f.source.type ∧ ((f.source.isList = false ∧ path = []) ∨
      (f.source.isList = true ∧ ∃ i, path = [.item i])) := by
  constructor
  · intro hleads
    cases hleads with
    | scalar _ hl => exact ⟨rfl, .inl ⟨hl, rfl⟩⟩
    | scalars _ hl i => exact ⟨rfl, .inr ⟨hl, i, rfl⟩⟩
    | member hn _ => simp [h] at hn
    | inside hn _ _ _ => simp [h] at hn
    | records hn _ _ _ => simp [h] at hn
  · rintro ⟨rfl, ⟨hl, rfl⟩ | ⟨hl, i, rfl⟩⟩
    · exact .scalar h hl
    · exact .scalars h hl i

theorem leads_iff_of_single (h : f.nested = some n) (hl : f.source.isList = false) :
    f.Leads outer path need ↔
      (path = [] ∧ need = .member outer f n) ∨ (path ≠ [] ∧ n.Leads path need) := by
  constructor
  · intro hleads
    cases hleads with
    | scalar hn _ => simp [h] at hn
    | scalars hn _ _ => simp [h] at hn
    | member hn _ =>
      obtain rfl := Option.some.inj (h.symm.trans hn)
      exact .inl ⟨rfl, rfl⟩
    | inside hn _ hinside hpath =>
      obtain rfl := Option.some.inj (h.symm.trans hn)
      exact .inr ⟨hpath, hinside⟩
    | records _ hl' => simp [hl] at hl'
  · rintro (⟨rfl, rfl⟩ | ⟨hpath, hinside⟩)
    · exact .member h hl
    · exact .inside h hl hinside hpath

theorem leads_iff_of_list (h : f.nested = some n) (hl : f.source.isList = true) :
    f.Leads outer path need ↔ ∃ i path', path = .item i :: path' ∧ n.Leads path' need := by
  constructor
  · intro hleads
    cases hleads with
    | scalar hn _ => simp [h] at hn
    | scalars hn _ _ => simp [h] at hn
    | member _ hl' => simp [hl] at hl'
    | inside _ hl' => simp [hl] at hl'
    | records hn _ i hinside =>
      obtain rfl := Option.some.inj (h.symm.trans hn)
      exact ⟨i, _, rfl, hinside⟩
  · rintro ⟨i, path', rfl, hinside⟩
    exact .records h hl i hinside

end ResolvedField

/-! ## A walk comes to what stands where its descriptor leads -/

/-- The visits inside a record lie behind at least one step. -/
theorem Descriptor.mem_visits_iff_of_inside {d : Descriptor} {v w : Value} {path : List Step}
    {need : Need} (h : ⟨path, need, w⟩ ∈ d.inside v ↔
      path ≠ [] ∧ d.Leads path need ∧ v.follow? path = some w) :
    ⟨path, need, w⟩ ∈ d.visits v ↔ d.Leads path need ∧ v.follow? path = some w := by
  rw [visits, List.mem_cons, Visit.mk.injEq, h]
  cases path with
  | nil => simp [leads_nil_iff, eq_comm]
  | cons step path => simp

namespace ResolvedField
variable {outer : Descriptor} {f : ResolvedField} {path : List Step} {need : Need} {v w : Value}

theorem mem_visits_of_plain_iff (h : f.nested = none) :
    ⟨path, need, w⟩ ∈ f.visits outer v ↔ f.Leads outer path need ∧ v.follow? path = some w := by
  rw [visits_of_plain h, mem_plainVisits_iff, leads_iff_of_plain h, and_assoc]
  refine and_congr_right fun _ => ?_
  constructor
  · rintro (⟨hl, rfl, rfl⟩ | ⟨hl, i, items, rfl, rfl, hitem⟩)
    · exact ⟨.inl ⟨hl, rfl⟩, Value.follow?_nil _⟩
    · exact ⟨.inr ⟨hl, i, rfl⟩,
        Value.follow?_item_eq_some_iff.2 ⟨items, w, rfl, hitem, Value.follow?_nil w⟩⟩
  · rintro ⟨⟨hl, rfl⟩ | ⟨hl, i, rfl⟩, hfollow⟩
    · rw [Value.follow?_nil] at hfollow
      exact .inl ⟨hl, rfl, (Option.some.inj hfollow).symm⟩
    · obtain ⟨items, u, rfl, hitem, hu⟩ := Value.follow?_item_eq_some_iff.1 hfollow
      rw [Value.follow?_nil] at hu
      obtain rfl := Option.some.inj hu
      exact .inr ⟨hl, i, items, rfl, rfl, hitem⟩

variable {n : Descriptor}
  (hn : ∀ {path need v w}, ⟨path, need, w⟩ ∈ n.inside v ↔
    path ≠ [] ∧ n.Leads path need ∧ v.follow? path = some w)
include hn

theorem mem_visits_of_single_iff (h : f.nested = some n) (hl : f.source.isList = false) :
    ⟨path, need, w⟩ ∈ f.visits outer v ↔ f.Leads outer path need ∧ v.follow? path = some w := by
  rw [visits_of_single h hl, List.mem_cons, Visit.mk.injEq, hn, leads_iff_of_single h hl]
  cases path with
  | nil => simp [eq_comm]
  | cons step path => simp

theorem mem_visits_of_list_iff (h : f.nested = some n) (hl : f.source.isList = true) :
    ⟨path, need, w⟩ ∈ f.visits outer v ↔ f.Leads outer path need ∧ v.follow? path = some w := by
  rw [leads_iff_of_list h hl]
  rcases v.list_or_not with ⟨items, rfl⟩ | hv
  · rw [visits_of_list h hl, List.mem_flatMap]
    constructor
    · rintro ⟨⟨item, i⟩, hitem, hvisit⟩
      obtain ⟨path', rfl, hinside⟩ := Visit.mem_map_under_iff.1 hvisit
      obtain ⟨hleads, hfollow⟩ := (Descriptor.mem_visits_iff_of_inside hn).1 hinside
      have hat := List.mk_mem_zipIdx_iff_getElem?.1 hitem
      exact ⟨⟨i, path', rfl, hleads⟩,
        Value.follow?_item_eq_some_iff.2 ⟨items, item, rfl, hat, hfollow⟩⟩
    · rintro ⟨⟨i, path', rfl, hleads⟩, hfollow⟩
      obtain ⟨items', item, hitems, hat, hfollow⟩ := Value.follow?_item_eq_some_iff.1 hfollow
      obtain rfl := Value.list.inj hitems
      exact ⟨(item, i), List.mk_mem_zipIdx_iff_getElem?.2 hat, Visit.mem_map_under_iff.2
        ⟨path', rfl, (Descriptor.mem_visits_iff_of_inside hn).2 ⟨hleads, hfollow⟩⟩⟩
  · rw [visits_of_not_list h hl hv]
    constructor
    · intro hvisit
      cases hvisit
    · rintro ⟨⟨i, path', rfl, -⟩, hfollow⟩
      obtain ⟨items, -, hitems, -⟩ := Value.follow?_item_eq_some_iff.1 hfollow
      exact absurd hitems (hv items)

end ResolvedField

namespace Descriptor

theorem mem_inside_iff (d : Descriptor) : ∀ {path need v w}, ⟨path, need, w⟩ ∈ d.inside v ↔
    path ≠ [] ∧ d.Leads path need ∧ v.follow? path = some w := by
  induction d using Descriptor.induction with
  | step d ih =>
    intro path need v w
    -- the descriptors of the fields are known, and so are the fields
    have hfield (f : ResolvedField) (hf : f ∈ d.fields) {path need v w} :
        ⟨path, need, w⟩ ∈ f.visits d v ↔ f.Leads d path need ∧ v.follow? path = some w := by
      cases hnested : f.nested with
      | none => exact ResolvedField.mem_visits_of_plain_iff hnested
      | some n =>
        cases hl : f.source.isList with
        | false => exact ResolvedField.mem_visits_of_single_iff (ih f hf n hnested) hnested hl
        | true => exact ResolvedField.mem_visits_of_list_iff (ih f hf n hnested) hnested hl
    rcases v.mapping_or_not with ⟨members, rfl⟩ | hv
    · rw [inside_mapping, ResolvedField.mem_allVisits_iff]
      constructor
      · rintro ⟨f, hf, u, path', hu, rfl, hvisit⟩
        obtain ⟨hleads, hfollow⟩ := (hfield f hf).1 hvisit
        exact ⟨List.cons_ne_nil _ _, .field hf hleads,
          Value.follow?_member_eq_some_iff.2 ⟨members, u, rfl, hu, hfollow⟩⟩
      · rintro ⟨hpath, hleads, hfollow⟩
        cases hleads with
        | top => exact absurd rfl hpath
        | @field _ f path' _ hf hleads =>
          obtain ⟨members', u, hmembers, hu, hfollow⟩ :=
            Value.follow?_member_eq_some_iff.1 hfollow
          obtain rfl := Value.mapping.inj hmembers
          exact ⟨f, hf, u, path', hu, rfl, (hfield f hf).2 ⟨hleads, hfollow⟩⟩
    · rw [d.inside_of_not_mapping hv]
      constructor
      · intro hvisit
        cases hvisit
      · rintro ⟨hpath, hleads, hfollow⟩
        cases hleads with
        | top => exact absurd rfl hpath
        | field =>
          obtain ⟨members, -, hmembers, -⟩ := Value.follow?_member_eq_some_iff.1 hfollow
          exact absurd hmembers (hv members)

/-- A walk comes to exactly the values that stand where its descriptor leads. -/
theorem mem_visits_iff {d : Descriptor} {v : Value} {x : Visit} :
    x ∈ d.visits v ↔ d.Leads x.path x.need ∧ v.follow? x.path = some x.value :=
  mem_visits_iff_of_inside d.mem_inside_iff

end Descriptor

end RecordProjection
