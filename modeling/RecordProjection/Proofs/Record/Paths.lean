import RecordProjection.Proofs.Entries
import RecordProjection.Record.Unflatten

/-!
# Paths into values

What stands at the end of a path, and how placing a value changes that: below the place there is
what the value has, on the way to it there are mappings, and off the way everything stays.

## Main definitions

* `Value.at?` : what stands at the end of a path.
* `Comparable` : one of two paths goes on where the other one ends.
* `Entries.rebuild` : the members that values at the ends of paths stand for.
-/
namespace RecordProjection

/-- What stands at the end of a path into a value, if the path leads anywhere. -/
def Value.at? : List String → Value → Option Value
  | [], v => some v
  | key :: path, .mapping members => (Entries.get? key members).bind (at? path)
  | _ :: _, _ => none

/-- One of two paths goes on where the other one ends. -/
def Comparable (path path' : List String) : Prop := path <+: path' ∨ path' <+: path

/-- The members that values at the ends of paths stand for, placed one after the other. -/
def Entries.rebuild (placed : List (List String × Value)) : Members :=
  placed.foldl (fun members e => Entries.place e.2 e.1 members) []

namespace Value

@[simp] theorem at?_nil (v : Value) : v.at? [] = some v := by
  rw [at?]

theorem at?_cons (key : String) (path : List String) (members : Members) :
    (mapping members).at? (key :: path) = (Entries.get? key members).bind (at? path) := by
  rw [at?]

theorem at?_singleton (key : String) (members : Members) :
    (mapping members).at? [key] = Entries.get? key members := by
  rw [at?_cons]
  cases Entries.get? key members <;> simp

/-- Nothing stands below a value that is no mapping. -/
theorem at?_of_not_mapping {v : Value} (hv : ∀ members, v ≠ mapping members) {path : List String}
    (hpath : path ≠ []) : v.at? path = none := by
  cases path with
  | nil => exact absurd rfl hpath
  | cons key path =>
    cases v with
    | mapping members => exact absurd rfl (hv members)
    | _ => rw [at?]; simp

theorem at?_empty {path : List String} (hpath : path ≠ []) : (mapping []).at? path = none := by
  cases path with
  | nil => exact absurd rfl hpath
  | cons key path => rw [at?_cons, Entries.get?_nil, Option.bind_none]

/-- A path is followed by following its beginning and then the rest. -/
theorem at?_append (path rest : List String) (v : Value) :
    v.at? (path ++ rest) = (v.at? path).bind (at? rest) := by
  induction path generalizing v with
  | nil => simp
  | cons key path ih =>
    rcases v.mapping_or_not with ⟨members, rfl⟩ | hv
    · rw [List.cons_append, at?_cons, at?_cons, Option.bind_assoc]
      congr 1
      funext u
      exact ih u
    · rw [at?_of_not_mapping hv (by simp), at?_of_not_mapping hv (by simp), Option.bind_none]

/-- Where a path goes on there is a mapping. -/
theorem exists_mapping_of_at?_append {path rest : List String} {v w : Value} (hrest : rest ≠ [])
    (h : v.at? (path ++ rest) = some w) : ∃ inner, v.at? path = some (mapping inner) := by
  rw [at?_append, Option.bind_eq_some_iff] at h
  obtain ⟨u, hu, h⟩ := h
  rcases u.mapping_or_not with ⟨inner, rfl⟩ | hother
  · exact ⟨inner, hu⟩
  · rw [at?_of_not_mapping hother hrest] at h
    cases h

/-- The members of a mapping in the way are those that the path leads into; there are none when
something else is in the way, or nothing. -/
theorem at?_membersD {key : String} {path : List String} (hpath : path ≠ []) (members : Members) :
    (mapping (membersD (Entries.get? key members))).at? path =
      (mapping members).at? (key :: path) := by
  rw [at?_cons]
  cases hv : Entries.get? key members with
  | none => exact at?_empty hpath
  | some v =>
    rcases v.mapping_or_not with ⟨inner, rfl⟩ | hother
    · rfl
    · have hnone : membersD (some v) = [] := by
        cases v with
        | mapping inner => exact absurd rfl (hother inner)
        | _ => rfl
      rw [hnone, at?_empty hpath, Option.bind_some, at?_of_not_mapping hother hpath]

end Value

/-- The last item of a list that something holds of. -/
theorem exists_last {α : Type} {p : α → Prop} {as : List α} (h : ∃ a ∈ as, p a) :
    ∃ before a after, as = before ++ a :: after ∧ p a ∧ ∀ b ∈ after, ¬p b := by
  induction as with
  | nil => simp at h
  | cons a as ih =>
    by_cases hlater : ∃ b ∈ as, p b
    · obtain ⟨before, b, after, rfl, hb, hafter⟩ := ih hlater
      exact ⟨a :: before, b, after, rfl, hb, hafter⟩
    · have hnone : ∀ b ∈ as, ¬p b := fun b hb hpb => hlater ⟨b, hb, hpb⟩
      obtain ⟨b, hb, hpb⟩ := h
      rcases List.mem_cons.1 hb with rfl | hb
      · exact ⟨[], b, as, rfl, hpb, hnone⟩
      · exact absurd hpb (hnone b hb)

/-! ## Placing one value -/

namespace Entries

/-- The step that placing a value takes along its path. -/
theorem place_cons (value : Value) (key : String) {path : List String} (hpath : path ≠ [])
    (members : Members) : place value (key :: path) members =
      insert key (.mapping (place value path (Value.membersD (get? key members)))) members := by
  cases path with
  | nil => exact absurd rfl hpath
  | cons k path => rw [place]; simp

/-- Below its place there is what the value has. -/
theorem at?_place_append (value : Value) {path : List String} (hpath : path ≠ [])
    (rest : List String) (members : Members) :
    (Value.mapping (place value path members)).at? (path ++ rest) = value.at? rest := by
  induction path generalizing members with
  | nil => exact absurd rfl hpath
  | cons key path ih =>
    cases path with
    | nil =>
      rw [place, List.singleton_append, Value.at?_cons, get?_insert, if_pos rfl, Option.bind_some]
    | cons k path =>
      have hne := List.cons_ne_nil k path
      rw [place_cons value key hne, List.cons_append, Value.at?_cons, get?_insert, if_pos rfl,
        Option.bind_some, ih hne]

/-- On the way to the place there are mappings. -/
theorem at?_place_of_prefix (value : Value) {path rest : List String} (hrest : rest ≠ [])
    (members : Members) : ∃ inner,
    (Value.mapping (place value (path ++ rest) members)).at? path = some (.mapping inner) := by
  induction path generalizing members with
  | nil => exact ⟨_, Value.at?_nil _⟩
  | cons key path ih =>
    have hne : path ++ rest ≠ [] := by simp [hrest]
    obtain ⟨inner, hinner⟩ := ih (Value.membersD (get? key members))
    refine ⟨inner, ?_⟩
    rw [List.cons_append, place_cons value key hne, Value.at?_cons, get?_insert, if_pos rfl,
      Option.bind_some, hinner]

/-- Off the way everything stays. -/
theorem at?_place_of_not_comparable (value : Value) {path other : List String}
    (h : ¬Comparable path other) (members : Members) :
    (Value.mapping (place value path members)).at? other =
      (Value.mapping members).at? other := by
  induction path generalizing other members with
  | nil => exact absurd (.inl List.nil_prefix) h
  | cons key path ih =>
    cases other with
    | nil => exact absurd (.inr List.nil_prefix) h
    | cons k other =>
      by_cases hk : key = k
      · subst hk
        have hrest : ¬Comparable path other := by
          rintro (hstart | hstart)
          · exact h (.inl (List.cons_prefix_cons.2 ⟨rfl, hstart⟩))
          · exact h (.inr (List.cons_prefix_cons.2 ⟨rfl, hstart⟩))
        have hpath : path ≠ [] := by
          rintro rfl
          exact hrest (.inl List.nil_prefix)
        have hother : other ≠ [] := by
          rintro rfl
          exact hrest (.inr List.nil_prefix)
        rw [place_cons value key hpath, Value.at?_cons, get?_insert, if_pos rfl, Option.bind_some,
          ih hrest, Value.at?_membersD hother]
      · have hother : get? k (place value (key :: path) members) = get? k members := by
          cases path with
          | nil => rw [place, get?_insert, if_neg hk]
          | cons k' path =>
            rw [place_cons value key (List.cons_ne_nil k' path), get?_insert, if_neg hk]
        rw [Value.at?_cons, Value.at?_cons, hother]

/-! ## Placing one value after the other -/

theorem at?_foldl_place_of_not_comparable {placed : List (List String × Value)}
    {path : List String} (h : ∀ e ∈ placed, ¬Comparable e.1 path) (members : Members) :
    (Value.mapping (placed.foldl (fun members e => place e.2 e.1 members) members)).at? path =
      (Value.mapping members).at? path := by
  induction placed generalizing members with
  | nil => rfl
  | cons e placed ih =>
    obtain ⟨he, hplaced⟩ := List.forall_mem_cons.1 h
    rw [List.foldl_cons, ih hplaced, at?_place_of_not_comparable _ he]

section Rebuild
variable {placed before after : List (List String × Value)} {e : List String × Value}

/-- A path that no entry is comparable with leads nowhere. -/
theorem at?_rebuild_eq_none {path : List String} (hpath : path ≠ [])
    (h : ∀ e ∈ placed, ¬Comparable e.1 path) :
    (Value.mapping (rebuild placed)).at? path = none := by
  rw [rebuild, at?_foldl_place_of_not_comparable h, Value.at?_empty hpath]

/-- Below the place of an entry there is what its value has, unless a later entry is comparable. -/
theorem at?_rebuild_append (hpath : e.1 ≠ []) {rest : List String}
    (h : ∀ e' ∈ after, ¬Comparable e'.1 (e.1 ++ rest)) :
    (Value.mapping (rebuild (before ++ e :: after))).at? (e.1 ++ rest) = e.2.at? rest := by
  rw [rebuild, List.foldl_append, List.foldl_cons, at?_foldl_place_of_not_comparable h,
    at?_place_append _ hpath]

/-- On the way to an entry there is a mapping, unless a later entry is comparable. -/
theorem at?_rebuild_of_prefix {path rest : List String} (he : e.1 = path ++ rest)
    (hrest : rest ≠ []) (h : ∀ e' ∈ after, ¬Comparable e'.1 path) : ∃ inner,
    (Value.mapping (rebuild (before ++ e :: after))).at? path = some (.mapping inner) := by
  rw [rebuild, List.foldl_append, List.foldl_cons, at?_foldl_place_of_not_comparable h, he]
  exact at?_place_of_prefix _ hrest _

end Rebuild

end Entries
end RecordProjection
