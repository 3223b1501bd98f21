import RecordProjection.Proofs.Json.Canonical
import RecordProjection.Shape.Basic

/-!
# The canonical payload of a shape

The members of a payload sorted by key: the alias of a field if it has one, its kind, its name and
the list behind it if there is one. From these a field is found again, so the canonical payload
determines the shape, flags included.
-/
namespace RecordProjection

open Json Value

namespace FieldSpec

/-! ## Fields by their parts -/

/-- A field is given by its kind and its three parts. -/
theorem ext_parts {f g : FieldSpec} (hkind : f.isWildcard = g.isWildcard) (hname : f.name = g.name)
    (hkey : f.alias? = g.alias?) (hnested : f.nested = g.nested) : f = g := by
  cases f with
  | wildcard label nested =>
    cases g with
    | wildcard label' nested' =>
      rw [show label = label' from hname, show nested = nested' from hnested]
    | named name' key' nested' h' => simp [isWildcard] at hkind
  | named name key nested h =>
    cases g with
    | wildcard label' nested' => simp [isWildcard] at hkind
    | named name' key' nested' h' =>
      obtain rfl : name = name' := hname
      rw [show key = key' from hkey, show nested = nested' from hnested]

mutual

/-- What holds of a field when it holds of the fields in its list holds of all fields. -/
theorem induction {P : FieldSpec → Prop}
    (step : ∀ f : FieldSpec, (∀ fs ∈ f.nested, ∀ g ∈ fs, P g) → P f) : ∀ f, P f
  | wildcard label none => step _ (by simp [nested])
  | wildcard label (some fs) => step _ fun _ hfs => by
    obtain rfl : fs = _ := by simpa [nested] using hfs
    exact induction_list step fs
  | named name key none h => step _ (by simp [nested])
  | named name key (some fs) h => step _ fun _ hfs => by
    obtain rfl : fs = _ := by simpa [nested] using hfs
    exact induction_list step fs

theorem induction_list {P : FieldSpec → Prop}
    (step : ∀ f : FieldSpec, (∀ fs ∈ f.nested, ∀ g ∈ fs, P g) → P f) :
    ∀ fs : List FieldSpec, ∀ g ∈ fs, P g
  | [] => by simp
  | f :: fs => by
    intro g hg
    cases List.mem_cons.1 hg with
    | inl heq => exact heq ▸ induction step f
    | inr hmem => exact induction_list step fs g hmem

end

/-! ## Sorted payloads -/

/-- The payload of a field with its members sorted at every level. -/
def sortedPayload (f : FieldSpec) : Value := f.payload.sorted

/-- The member of a list in parentheses, left out when there is none. -/
def nestedEntry : Option (List FieldSpec) → Members
  | none => []
  | some fs => [("nested_fields", .list (fs.map sortedPayload))]

theorem sortedItems_payloads (fs : List FieldSpec) :
    sortedItems (payloads fs) = fs.map sortedPayload := by
  induction fs with
  | nil => rfl
  | cons f fs ih => rw [payloads, sortedItems, ih, List.map_cons, sortedPayload]

/-- The members of a payload in the order of their keys. -/
def sortedMembers (f : FieldSpec) : Members :=
  aliasMember f.alias? ++ ("is_wildcard", .bool f.isWildcard) :: ("name", .text f.name)
    :: nestedEntry f.nested

theorem sortedPayload_eq (f : FieldSpec) : f.sortedPayload = .mapping f.sortedMembers := by
  rw [sortedPayload, sortedMembers]
  cases f with
  | wildcard label nested =>
    cases nested <;>
      simp [payload, sorted, Value.sortedMembers, sortedItems_payloads, sortMembers, List.mergeSort,
        aliasMember, nestedEntry, alias?, isWildcard, name, FieldSpec.nested]
  | named name key nested h =>
    cases nested <;> cases key <;>
      simp [payload, sorted, Value.sortedMembers, sortedItems_payloads, sortMembers, List.mergeSort,
        aliasMember, nestedEntry, alias?, isWildcard, FieldSpec.name, FieldSpec.nested]

/-- A payload has at most four members. -/
theorem forall_mem_sortedMembers {P : String × Value → Prop} (f : FieldSpec)
    (halias : ∀ a ∈ f.alias?, P ("alias", .text a)) (hkind : P ("is_wildcard", .bool f.isWildcard))
    (hname : P ("name", .text f.name))
    (hnested : ∀ fs ∈ f.nested, P ("nested_fields", .list (fs.map sortedPayload))) :
    ∀ m ∈ f.sortedMembers, P m := by
  intro m hm
  rw [sortedMembers, List.mem_append, List.mem_cons, List.mem_cons] at hm
  rcases hm with hm | rfl | rfl | hm
  · cases hkey : f.alias? with
    | none => simp [aliasMember, hkey] at hm
    | some a =>
      obtain rfl : m = ("alias", .text a) := by simpa [aliasMember, hkey] using hm
      exact halias a hkey
  · exact hkind
  · exact hname
  · cases hlist : f.nested with
    | none => simp [nestedEntry, hlist] at hm
    | some fs =>
      obtain rfl : m = ("nested_fields", .list (fs.map sortedPayload)) := by
        simpa [nestedEntry, hlist] using hm
      exact hnested fs hlist

/-- The payload of a field is a JSON value. -/
theorem isJson_sortedPayload (f : FieldSpec) : f.sortedPayload.IsJson := by
  induction f using FieldSpec.induction with
  | step f ih =>
    rw [sortedPayload_eq]
    refine .mapping (f.forall_mem_sortedMembers ?_ (.bool _) (.text _) ?_)
    · intro a _
      exact .text a
    · intro fs hfs
      refine .list ?_
      intro v hv
      obtain ⟨g, hg, rfl⟩ := List.mem_map.1 hv
      exact ih fs hfs g hg

/-! ## The parts of a field in its payload -/

theorem get?_alias (f : FieldSpec) :
    Entries.get? "alias" f.sortedMembers = f.alias?.map Value.text := by
  rw [sortedMembers]
  cases f.alias? <;> cases f.nested <;> simp [aliasMember, nestedEntry, Entries.get?]

theorem get?_isWildcard (f : FieldSpec) :
    Entries.get? "is_wildcard" f.sortedMembers = some (.bool f.isWildcard) := by
  rw [sortedMembers]
  cases f.alias? <;> simp [aliasMember, Entries.get?]

theorem get?_name (f : FieldSpec) :
    Entries.get? "name" f.sortedMembers = some (.text f.name) := by
  rw [sortedMembers]
  cases f.alias? <;> simp [aliasMember, Entries.get?]

theorem get?_nested (f : FieldSpec) :
    Entries.get? "nested_fields" f.sortedMembers =
      f.nested.map fun fs => .list (fs.map sortedPayload) := by
  rw [sortedMembers]
  cases f.alias? <;> cases f.nested <;> simp [aliasMember, nestedEntry, Entries.get?]

/-- Lists of fields with the same payloads are the same if this holds of the fields in one. -/
theorem eq_of_map_sortedPayload_eq {fs gs : List FieldSpec}
    (ih : ∀ f ∈ fs, ∀ g, f.sortedPayload = g.sortedPayload → f = g)
    (h : fs.map sortedPayload = gs.map sortedPayload) : fs = gs := by
  induction fs generalizing gs with
  | nil => exact (List.map_eq_nil_iff.1 h.symm).symm
  | cons f fs ihfs =>
    cases gs with
    | nil => simp at h
    | cons g gs =>
      rw [List.map_cons, List.map_cons, List.cons.injEq] at h
      rw [ih f List.mem_cons_self g h.1,
        ihfs (fun f hf => ih f (List.mem_cons_of_mem _ hf)) h.2]

/-- A field is found again from its payload. -/
theorem sortedPayload_inj {f g : FieldSpec} (h : f.sortedPayload = g.sortedPayload) : f = g := by
  induction f using FieldSpec.induction generalizing g with
  | step f ih =>
    rw [sortedPayload_eq, sortedPayload_eq] at h
    have hget (key : String) :
        Entries.get? key f.sortedMembers = Entries.get? key g.sortedMembers := by
      rw [Value.mapping.inj h]
    refine ext_parts ?_ ?_ ?_ ?_
    · have := hget "is_wildcard"
      rw [get?_isWildcard, get?_isWildcard] at this
      simpa using this
    · have := hget "name"
      rw [get?_name, get?_name] at this
      simpa using this
    · have := hget "alias"
      rw [get?_alias, get?_alias] at this
      exact Option.map_injective (fun _ _ => Value.text.inj) this
    · have := hget "nested_fields"
      rw [get?_nested, get?_nested] at this
      cases hf : f.nested with
      | none =>
        rw [hf, Option.map_none] at this
        exact (Option.map_eq_none_iff.1 this.symm).symm
      | some fs =>
        cases hg : g.nested with
        | none => simp [hf, hg] at this
        | some gs =>
          simp only [hf, hg, Option.map_some, Option.some.injEq, Value.list.injEq] at this
          exact congrArg some (eq_of_map_sortedPayload_eq (fun f' hf' _ => ih fs hf f' hf') this)

end FieldSpec

namespace Shape

/-- The members of a payload, which are in the order of their keys as they stand. -/
def sortedMembers (s : Shape) : Members :=
  [("fields", .list (s.fields.map FieldSpec.sortedPayload)), ("is_flat", .bool s.isFlat),
    ("is_flat_lists", .bool s.isFlatLists)]

theorem sorted_payload (s : Shape) : s.payload.sorted = .mapping s.sortedMembers := by
  simp [payload, sorted, Value.sortedMembers, FieldSpec.sortedItems_payloads, sortMembers,
    List.mergeSort, sortedMembers]

/-- A payload has three members. -/
theorem forall_mem_sortedMembers {P : String × Value → Prop} (s : Shape)
    (hfields : P ("fields", .list (s.fields.map FieldSpec.sortedPayload)))
    (hflat : P ("is_flat", .bool s.isFlat))
    (hflatLists : P ("is_flat_lists", .bool s.isFlatLists)) : ∀ m ∈ s.sortedMembers, P m := by
  intro m hm
  rw [sortedMembers, List.mem_cons, List.mem_cons, List.mem_singleton] at hm
  rcases hm with rfl | rfl | rfl
  · exact hfields
  · exact hflat
  · exact hflatLists

theorem isJson_sorted_payload (s : Shape) : s.payload.sorted.IsJson := by
  rw [sorted_payload]
  refine .mapping (s.forall_mem_sortedMembers ?_ (.bool _) (.bool _))
  refine .list ?_
  intro v hv
  obtain ⟨f, _, rfl⟩ := List.mem_map.1 hv
  exact f.isJson_sortedPayload

/-- The canonical text of a shape determines the shape. -/
theorem canonical_inj {s s' : Shape} (h : s.canonical = s'.canonical) : s = s' := by
  have hchars : s.payload.sorted.orderedChars = s'.payload.sorted.orderedChars := by
    rw [← canonicalChars_eq, ← canonicalChars_eq]
    exact String.ofList_injective h
  have hpayload := s.isJson_sorted_payload.orderedChars_inj s'.isJson_sorted_payload hchars
  rw [sorted_payload, sorted_payload, sortedMembers, sortedMembers] at hpayload
  simp only [Value.mapping.injEq, List.cons.injEq, Prod.mk.injEq, Value.list.injEq,
    Value.bool.injEq, true_and, and_true] at hpayload
  obtain ⟨hfields, hflat, hflatLists⟩ := hpayload
  cases s
  cases s'
  obtain rfl := FieldSpec.eq_of_map_sortedPayload_eq
    (fun _ _ _ => FieldSpec.sortedPayload_inj) hfields
  rw [Shape.mk.injEq]
  exact ⟨rfl, hflat, hflatLists⟩

end Shape
end RecordProjection
