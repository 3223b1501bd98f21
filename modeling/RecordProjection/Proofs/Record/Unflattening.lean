import RecordProjection.Proofs.Record.Reordering
import RecordProjection.Proofs.Text.Joining

/-!
# Looking up what was unflattened

The members of a flat payload are placed one after the other, each at the end of the path that its
key stands for. What stands at the end of a path afterwards is decided by one of them: the last one
whose own path goes on where this path ends, or ends where this path goes on.

## Main definitions

* `Clashes` : of two paths the one goes on behind the end of the other.
-/
namespace RecordProjection

/-- Of two paths the one goes on behind the end of the other. -/
def Clashes (path path' : List String) : Prop := path ≠ path' ∧ Comparable path path'

namespace Joiner
variable {j : Joiner}

/-- Flat members with distinct keys are placed one after the other, whether a key is joined or
not. -/
theorem unflattenMembers_eq {flat : Members} (h : (Entries.keys flat).Nodup) :
    j.unflattenMembers flat = Entries.rebuild (flat.map fun m => (j.path m.1, m.2)) := by
  have hfold : Entries.rebuild (flat.map fun m => (j.path m.1, m.2)) =
      flat.foldl (fun result m => Entries.place m.2 (j.path m.1) result) [] := by
    rw [Entries.rebuild, List.foldl_map]
  rw [hfold, unflattenMembers]
  split
  · next hplain =>
    have hsingle : ∀ m ∈ flat, j.path m.1 = [m.1] := by
      intro m hm
      have := List.all_eq_true.1 hplain m hm
      exact path_of_not_occursIn (by simpa using this)
    have hplace : flat.foldl (fun result m => Entries.place m.2 (j.path m.1) result) [] =
        Entries.ofList flat := by
      refine List.foldl_ext _ _ _ fun result m hm => ?_
      rw [hsingle m hm, Entries.place]
    rw [hplace, Entries.ofList_eq_self h]
  · rfl

/-! ## One path -/

section Lookup
variable {members before after : Members} {e : String × Value}

/-- A path that no key has to do with leads nowhere. -/
theorem at?_unflatten_eq_none (hkeys : (Entries.keys members).Nodup) {path : List String}
    (hpath : path ≠ []) (h : ∀ e ∈ members, ¬Comparable (j.path e.1) path) :
    (j.unflatten (.mapping members)).at? path = none := by
  rw [unflatten, unflattenMembers_eq hkeys]
  apply Entries.at?_rebuild_eq_none hpath
  intro placed hplaced
  obtain ⟨e, he, rfl⟩ := List.mem_map.1 hplaced
  exact h e he

variable (hkeys : (Entries.keys (before ++ e :: after)).Nodup)
include hkeys

/-- Below the end of the path of a key there is what its value has, unless a later key has to do
with it. -/
theorem at?_unflatten_append {rest : List String}
    (h : ∀ e' ∈ after, ¬Comparable (j.path e'.1) (j.path e.1 ++ rest)) :
    (j.unflatten (.mapping (before ++ e :: after))).at? (j.path e.1 ++ rest) = e.2.at? rest := by
  rw [unflatten, unflattenMembers_eq hkeys, List.map_append, List.map_cons]
  apply Entries.at?_rebuild_append (e := (j.path e.1, e.2)) (j.path_ne_nil e.1)
  intro placed hplaced
  obtain ⟨e', he', rfl⟩ := List.mem_map.1 hplaced
  exact h e' he'

/-- On the way to the end of the path of a key there is a mapping, unless a later key has to do
with it. -/
theorem at?_unflatten_of_prefix {path rest : List String} (hrest : rest ≠ [])
    (hpath : path ++ rest = j.path e.1) (h : ∀ e' ∈ after, ¬Comparable (j.path e'.1) path) :
    ∃ inner, (j.unflatten (.mapping (before ++ e :: after))).at? path = some (.mapping inner) := by
  rw [unflatten, unflattenMembers_eq hkeys, List.map_append, List.map_cons]
  apply Entries.at?_rebuild_of_prefix (e := (j.path e.1, e.2)) hpath.symm hrest
  intro placed hplaced
  obtain ⟨e', he', rfl⟩ := List.mem_map.1 hplaced
  exact h e' he'

end Lookup

/-- What a path leads to comes from one of the members: it stands inside a value at the end of the
path of its key, or is a mapping on the way there. A path that leads nowhere has to do with no key,
or goes on inside a value. -/
theorem at?_unflatten_cases {members : Members} (hkeys : (Entries.keys members).Nodup)
    {path : List String} (hpath : path ≠ []) :
    ((∀ e ∈ members, ¬Comparable (j.path e.1) path) ∧
      (j.unflatten (.mapping members)).at? path = none) ∨
    ∃ e ∈ members,
      (∃ rest, j.path e.1 ++ rest = path ∧
        (j.unflatten (.mapping members)).at? path = e.2.at? rest) ∨
      (∃ rest, rest ≠ [] ∧ path ++ rest = j.path e.1 ∧ ∃ inner,
        (j.unflatten (.mapping members)).at? path = some (.mapping inner)) := by
  by_cases hcomparable : ∃ e ∈ members, Comparable (j.path e.1) path
  · obtain ⟨before, e, after, rfl, hlast, hafter⟩ := exists_last hcomparable
    right
    refine ⟨e, by simp, ?_⟩
    by_cases hbelow : j.path e.1 <+: path
    · obtain ⟨rest, rfl⟩ := hbelow
      exact .inl ⟨rest, rfl, at?_unflatten_append hkeys hafter⟩
    · obtain ⟨rest, hrest⟩ := hlast.resolve_left hbelow
      have hne : rest ≠ [] := by
        rintro rfl
        exact hbelow (by simp [← hrest])
      exact .inr ⟨rest, hne, hrest, at?_unflatten_of_prefix hkeys hne hrest hafter⟩
  · left
    have hnone : ∀ e ∈ members, ¬Comparable (j.path e.1) path := by
      intro e he hc
      exact hcomparable ⟨e, he, hc⟩
    exact ⟨hnone, at?_unflatten_eq_none hkeys hpath hnone⟩

/-! ## The order of the members -/

section Order
variable {members members' : Members}

/-- Of members none of whose paths goes on behind the end of another one, only one has to do with a
path that goes on behind the end of its own. -/
theorem eq_of_path_prefix (hfree : ∀ e ∈ members, ∀ e' ∈ members, j.path e.1 <+: j.path e'.1 → e = e')
    {e e' : String × Value} (he : e ∈ members) (he' : e' ∈ members) {path : List String}
    (h : j.path e.1 <+: path) (h' : Comparable (j.path e'.1) path) : e = e' := by
  rcases h' with h' | h'
  · rcases List.prefix_or_prefix_of_prefix h h' with hstart | hstart
    · exact hfree e he e' he' hstart
    · exact (hfree e' he' e he hstart).symm
  · exact hfree e he e' he' (h.trans h')

/-- Members none of whose paths goes on behind the end of another one stand for the same value in
any order, up to the order of the members in it. -/
theorem reordered_unflatten_of_perm (hkeys : (Entries.keys members).Nodup)
    (hfree : ∀ e ∈ members, ∀ e' ∈ members, j.path e.1 <+: j.path e'.1 → e = e')
    (hperm : members.Perm members') :
    (j.unflatten (.mapping members)).Reordered (j.unflatten (.mapping members')) := by
  have hkeys' : (Entries.keys members').Nodup := (hperm.map Prod.fst).nodup_iff.1 hkeys
  have hcycle {path rest other rest' : List String} (h : path ++ rest = other)
      (h' : other ++ rest' = path) : rest' = [] := by
    subst h
    have hboth : rest = [] ∧ rest' = [] := by simpa using h'
    exact hboth.2
  apply Value.reordered_of_at?
  intro path
  by_cases hpath : path = []
  · subst hpath
    exact .inr ⟨_, _, Value.at?_nil _, Value.at?_nil _⟩
  rcases at?_unflatten_cases (j := j) hkeys hpath with ⟨hnone, hhere⟩ | ⟨e, he, hhere⟩
  · left
    have hnone' : ∀ e ∈ members', ¬Comparable (j.path e.1) path := by
      intro e he
      exact hnone e (hperm.mem_iff.2 he)
    rw [hhere, at?_unflatten_eq_none hkeys' hpath hnone']
  rcases at?_unflatten_cases (j := j) hkeys' hpath with ⟨hnone, -⟩ | ⟨e', he', hthere⟩
  · exfalso
    apply hnone e (hperm.mem_iff.1 he)
    rcases hhere with ⟨rest, hrest, -⟩ | ⟨rest, -, hrest, -⟩
    · exact .inl ⟨rest, hrest⟩
    · exact .inr ⟨rest, hrest⟩
  have he' : e' ∈ members := hperm.mem_iff.2 he'
  rcases hhere with ⟨rest, hrest, hhere⟩ | ⟨rest, hne, hrest, inner, hinner⟩
  · left
    rcases hthere with ⟨rest', hrest', hthere⟩ | ⟨rest', hne', hrest', -⟩
    · obtain rfl := eq_of_path_prefix hfree he he' ⟨rest, hrest⟩ (.inl ⟨rest', hrest'⟩)
      obtain rfl : rest = rest' := List.append_cancel_left (hrest.trans hrest'.symm)
      rw [hhere, hthere]
    · obtain rfl := eq_of_path_prefix hfree he he' ⟨rest, hrest⟩ (.inr ⟨rest', hrest'⟩)
      exact absurd (hcycle hrest hrest') hne'
  · rcases hthere with ⟨rest', hrest', -⟩ | ⟨rest', -, -, inner', hinner'⟩
    · obtain rfl := eq_of_path_prefix hfree he' he ⟨rest', hrest'⟩ (.inr ⟨rest, hrest⟩)
      exact absurd (hcycle hrest' hrest) hne
    · exact .inr ⟨inner, inner', hinner, hinner'⟩

end Order

/-- Unflattening by what can be looked up afterwards. A path that no key has to do with leads
nowhere; otherwise the last such key decides: below the end of its own path there is what its value
has, and on the way there a mapping. So a value stays at the end of its path unless the path of a
later key clashes with it, what is there comes from one of the members, and when no two paths clash
the order of the members shows in nothing but the order of the members. -/
theorem unflatten_lookup (j : Joiner) (members : Members) (hkeys : (Entries.keys members).Nodup) :
    (∀ path, path ≠ [] →
      ((∀ e ∈ members, ¬Comparable (j.path e.1) path) →
        (j.unflatten (.mapping members)).at? path = none) ∧
      ∀ before e after, members = before ++ e :: after → Comparable (j.path e.1) path →
        (∀ e' ∈ after, ¬Comparable (j.path e'.1) path) →
          (∀ rest, j.path e.1 ++ rest = path →
            (j.unflatten (.mapping members)).at? path = e.2.at? rest) ∧
          ∀ rest, rest ≠ [] → path ++ rest = j.path e.1 → ∃ inner,
            (j.unflatten (.mapping members)).at? path = some (.mapping inner)) ∧
    (∀ before e after, members = before ++ e :: after →
      (∀ e' ∈ after, ¬Clashes (j.path e'.1) (j.path e.1)) →
        (j.unflatten (.mapping members)).at? (j.path e.1) = some e.2) ∧
    (∀ path v, path ≠ [] → (j.unflatten (.mapping members)).at? path = some v → ∃ e ∈ members,
      (∃ rest, j.path e.1 ++ rest = path ∧ e.2.at? rest = some v) ∨
      ∃ rest, rest ≠ [] ∧ path ++ rest = j.path e.1 ∧ ∃ inner, v = .mapping inner) ∧
    ((∀ e ∈ members, ∀ e' ∈ members, ¬Clashes (j.path e.1) (j.path e'.1)) →
      ∀ members', members.Perm members' →
        (j.unflatten (.mapping members)).Reordered (j.unflatten (.mapping members'))) := by
  refine ⟨?_, ?_, ?_, ?_⟩
  · intro path hpath
    refine ⟨at?_unflatten_eq_none hkeys hpath, ?_⟩
    rintro before e after rfl - hafter
    constructor
    · rintro rest rfl
      exact at?_unflatten_append hkeys hafter
    · intro rest hrest hthrough
      exact at?_unflatten_of_prefix hkeys hrest hthrough hafter
  · rintro before e after rfl hclash
    have hafter : ∀ e' ∈ after, ¬Comparable (j.path e'.1) (j.path e.1 ++ []) := by
      intro e' he' hcomparable
      rw [List.append_nil] at hcomparable
      refine hclash e' he' ⟨?_, hcomparable⟩
      intro hsame
      -- a later key is another one, and so is its path
      rw [Entries.keys, List.map_append, List.map_cons] at hkeys
      have hrest := (List.nodup_append.1 hkeys).2.1
      exact (List.nodup_cons.1 hrest).1
        (List.mem_map.2 ⟨e', he', j.path_injective hsame⟩)
    simpa using at?_unflatten_append hkeys hafter
  · intro path v hpath hv
    rcases at?_unflatten_cases (j := j) hkeys hpath with ⟨-, hnone⟩ | ⟨e, he, hwhere⟩
    · rw [hnone] at hv
      cases hv
    · refine ⟨e, he, ?_⟩
      rcases hwhere with ⟨rest, hrest, hvalue⟩ | ⟨rest, hne, hrest, inner, hinner⟩
      · exact .inl ⟨rest, hrest, hvalue ▸ hv⟩
      · exact .inr ⟨rest, hne, hrest, inner, Option.some.inj (hv.symm.trans hinner)⟩
  · intro hclash members' hperm
    refine reordered_unflatten_of_perm hkeys ?_ hperm
    intro e he e' he' hstart
    have hsame : e.1 = e'.1 := by
      by_contra hne
      exact hclash e he e' he' ⟨fun h => hne (j.path_injective h), .inl hstart⟩
    have hvalue := Entries.get?_of_mem hkeys he
    rw [hsame, Entries.get?_of_mem hkeys he'] at hvalue
    exact Prod.ext hsame (Option.some.inj hvalue).symm

/-- A number in the way gives way to a level, and the level to a later mapping, which is then
extended. -/
theorem lookup_behind_conflicts : (Joiner.unflatten ⟨['.'], by decide⟩ (.mapping [("a", .int 1),
    ("a.b", .int 2), ("c.d", .int 3), ("c", .mapping [("e", .null)]), ("c.f", .int 4)])).at?
      ["c", "f"] = some (.int 4) := by
  have hkeys : (Entries.keys [("a", Value.int 1), ("a.b", .int 2), ("c.d", .int 3),
    ("c", .mapping [("e", .null)]), ("c.f", .int 4)]).Nodup := by decide
  have hjoin : join ⟨['.'], by decide⟩ ["c", "f"] = "c.f" := by decide
  have hpath := path_join (j := ⟨['.'], by decide⟩) (List.cons_ne_nil "c" ["f"])
    (by simp [Avoids])
  rw [hjoin] at hpath
  have hlookup := (unflatten_lookup ⟨['.'], by decide⟩ _ hkeys).2.1 [_, _, _, _] _ [] rfl (by simp)
  rwa [hpath] at hlookup

end Joiner
end RecordProjection
