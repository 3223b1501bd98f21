import RecordProjection.Proofs.Record.Unflattening
import RecordProjection.Schema.Builtin

/-!
# Flat payloads and nested ones

A record can be given flat in many ways: some of its paths are chosen so that every branch of the
record goes through one of them, and what stands at their ends is listed under joined keys.
Unflattening undoes all of them, up to the order of members, and so a flat payload is projected like
the record that it was made from.

## Main definitions

* `IsBranch` : a path into a mapping that cannot be followed further.
* `Joiner.Flattens` : members are a flat form of other members.
-/
namespace RecordProjection

/-- A path into a mapping that leads somewhere and cannot be followed further. -/
def IsBranch (members : Members) (path : List String) : Prop :=
  path ≠ [] ∧ ∃ v, (Value.mapping members).at? path = some v ∧ Value.membersD (some v) = []

/-- The flat members list, for chosen paths in any order, what stands at their ends under the keys
that they are joined into. The paths keep clear of the joiner, and every branch goes through one of
them; that it goes through no other one is not needed, as all of them lead into the same members. -/
structure Joiner.Flattens (j : Joiner) (members : Members) (paths : List (List String))
    (flat : Members) : Prop where
  ne_nil : ∀ path ∈ paths, path ≠ []
  avoids : ∀ path ∈ paths, ∀ key ∈ path, j.Avoids key
  branches : ∀ branch, IsBranch members branch → ∃ path ∈ paths, path <+: branch
  listed : List.Forall₂ (fun path m => m.1 = j.join path ∧
    (Value.mapping members).at? path = some m.2) paths flat
  distinct : (Entries.keys flat).Nodup

/-! ## Branches -/

/-- Whatever is there lies on a branch. -/
theorem exists_branch {members : Members} (v : Value) : ∀ path : List String, path ≠ [] →
    (Value.mapping members).at? path = some v →
    ∃ branch, IsBranch members branch ∧ path <+: branch := by
  induction v using Value.induction_members with
  | step v ih =>
    intro path hpath hv
    by_cases hend : Value.membersD (some v) = []
    · exact ⟨path, ⟨hpath, v, hv, hend⟩, List.prefix_refl path⟩
    · obtain ⟨inner, rfl⟩ : ∃ inner, v = .mapping inner := by
        cases v with
        | mapping inner => exact ⟨inner, rfl⟩
        | _ => exact absurd rfl hend
      obtain ⟨⟨key, u⟩, more, rfl⟩ := List.exists_cons_of_ne_nil hend
      have hu : (Value.mapping members).at? (path ++ [key]) = some u := by
        rw [Value.at?_append, hv, Option.bind_some, Value.at?_singleton, Entries.get?, if_pos rfl]
      obtain ⟨branch, hbranch, hstart⟩ :=
        ih _ rfl (key, u) List.mem_cons_self (path ++ [key]) (by simp) hu
      exact ⟨branch, hbranch, (List.prefix_append path [key]).trans hstart⟩

namespace Joiner
variable {j : Joiner}

namespace Flattens
variable {members flat : Members} {paths : List (List String)}

/-- What is placed comes from the end of its path. -/
theorem placed (h : j.Flattens members paths flat) : List.Forall₂ (fun path e => e.1 = path ∧
    (Value.mapping members).at? path = some e.2) paths (flat.map fun m => (j.path m.1, m.2)) := by
  have hpath : ∀ path ∈ paths, j.path (j.join path) = path := fun path hp =>
    path_join (h.ne_nil path hp) (h.avoids path hp)
  refine List.forall₂_map_right_iff.2 ?_
  have hlisted := h.listed
  clear h
  induction hlisted with
  | nil => exact .nil
  | cons hm _ ih =>
    obtain ⟨hhere, hrest⟩ := List.forall_mem_cons.1 hpath
    exact .cons ⟨by rw [hm.1, hhere], hm.2⟩ (ih hrest)

/-- Unflattening gives every path what it leads to, mappings aside. -/
theorem at?_unflattenMembers (h : j.Flattens members paths flat) (path : List String) :
    (Value.mapping (j.unflattenMembers flat)).at? path = (Value.mapping members).at? path ∨
    ∃ inner inner', (Value.mapping (j.unflattenMembers flat)).at? path = some (.mapping inner) ∧
      (Value.mapping members).at? path = some (.mapping inner') := by
  by_cases hpath : path = []
  · subst hpath
    exact .inr ⟨_, _, Value.at?_nil _, Value.at?_nil _⟩
  rw [unflattenMembers_eq h.distinct]
  have hplaced := h.placed
  generalize flat.map (fun m => (j.path m.1, m.2)) = es at hplaced
  by_cases hcomparable : ∃ e ∈ es, Comparable e.1 path
  · -- the last entry that has to do with the path decides what is there
    obtain ⟨before, e, after, rfl, hlast, hafter⟩ := exists_last hcomparable
    have he : e ∈ before ++ e :: after := List.mem_append_right _ List.mem_cons_self
    obtain ⟨chosen, hchosen, rfl, hvalue⟩ := exists_of_mem_forall₂ hplaced he
    by_cases hbelow : e.1 <+: path
    · obtain ⟨rest, rfl⟩ := hbelow
      left
      rw [Entries.at?_rebuild_append (h.ne_nil _ hchosen) hafter, Value.at?_append, hvalue,
        Option.bind_some]
    · obtain ⟨rest, hrest⟩ := hlast.resolve_left hbelow
      have hne : rest ≠ [] := by
        rintro rfl
        exact hbelow (by simp [← hrest])
      obtain ⟨inner, hinner⟩ := Entries.at?_rebuild_of_prefix hrest.symm hne hafter
      rw [← hrest] at hvalue
      obtain ⟨inner', hinner'⟩ := Value.exists_mapping_of_at?_append hne hvalue
      exact .inr ⟨inner, inner', hinner, hinner'⟩
  · left
    rw [Entries.at?_rebuild_eq_none hpath fun e he hc => hcomparable ⟨e, he, hc⟩]
    cases hv : (Value.mapping members).at? path with
    | none => rfl
    | some v =>
      -- what is there lies on a branch, which goes through a chosen path
      obtain ⟨branch, hbranch, hstart⟩ := exists_branch v path hpath hv
      obtain ⟨chosen, hchosen, hthrough⟩ := h.branches branch hbranch
      have hback : List.Forall₂ (fun (e : List String × Value) path => e.1 = path ∧
          (Value.mapping members).at? path = some e.2) es paths := hplaced.flip
      obtain ⟨e, he, rfl, -⟩ := exists_of_mem_forall₂ hback hchosen
      exact absurd (List.prefix_or_prefix_of_prefix hthrough hstart) fun hc =>
        hcomparable ⟨e, he, hc⟩

/-- Unflattening undoes flattening, up to the order of members. -/
theorem reordered_unflattenMembers (h : j.Flattens members paths flat) :
    (Value.mapping (j.unflattenMembers flat)).Reordered (.mapping members) :=
  Value.reordered_of_at? _ _ h.at?_unflattenMembers

end Flattens
end Joiner

/-- A flat payload is projected like the record that it was made from: to the same record, up to the
order of members inside values whose own fields are not asked for, or with the same error. -/
theorem Descriptor.record_of_flattens {j : Joiner} {members flat : Members}
    {paths : List (List String)} (h : j.Flattens members paths flat) (d : Descriptor)
    (joiner : Option Joiner) (origin : String) :
    SameOutcome d.Alike
      (({ d with isFlat := true } : Descriptor).record (some j) (.mapping flat) origin)
      (({ d with isFlat := false } : Descriptor).record joiner (.mapping members) origin) := by
  rw [record_withFlat (v := .mapping (j.unflattenMembers flat)) rfl, record_withFlat rfl]
  exact d.sameOutcome_project _ _ _ h.reordered_unflattenMembers

/-- A contract whose recipient is given flat, with its place left whole. -/
theorem Descriptor.contract_of_flattens : ∃ d, Registry.builtin.resolve 2 "Contract"
    ⟨[.named "recipient" none (some [.named "location" none none (by decide)]) (by decide)],
      true, false⟩ = .ok d ∧
    SameOutcome d.Alike
      (({ d with isFlat := true } : Descriptor).record (some ⟨['.'], by decide⟩)
        (.mapping [("recipient.location", .mapping [("city", .text "Reno")]),
          ("piid", .text "P-1"), ("recipient.uei", .null)]) "root")
      (({ d with isFlat := false } : Descriptor).record none
        (.mapping [("piid", .text "P-1"), ("recipient", .mapping [("uei", .null),
          ("location", .mapping [("city", .text "Reno")])])]) "root") := by
  have hflattens : Joiner.Flattens ⟨['.'], by decide⟩
      [("piid", .text "P-1"), ("recipient", .mapping [("uei", .null),
        ("location", .mapping [("city", .text "Reno")])])]
      [["recipient", "location"], ["piid"], ["recipient", "uei"]]
      [("recipient.location", .mapping [("city", .text "Reno")]), ("piid", .text "P-1"),
        ("recipient.uei", .null)] := by
    refine ⟨by decide, ?_, ?_, ?_, by decide⟩
    · simp [Joiner.Avoids]
    · rintro branch ⟨hne, v, hv, hend⟩
      obtain ⟨key, rest, rfl⟩ := List.exists_cons_of_ne_nil hne
      rw [Value.at?_cons] at hv
      by_cases hpiid : key = "piid"
      · exact ⟨["piid"], by simp, by simp [hpiid]⟩
      by_cases hrecipient : key = "recipient"
      · subst hrecipient
        cases rest with
        | nil =>
          obtain rfl : _ = v := by simpa [Entries.get?] using hv
          simp [Value.membersD] at hend
        | cons key rest =>
          rw [Entries.get?, if_neg (by decide), Entries.get?, if_pos rfl, Option.bind_some,
            Value.at?_cons] at hv
          by_cases huei : key = "uei"
          · exact ⟨["recipient", "uei"], by simp, by simp [huei]⟩
          by_cases hlocation : key = "location"
          · exact ⟨["recipient", "location"], by simp, by simp [hlocation]⟩
          simp [Entries.get?, Ne.symm huei, Ne.symm hlocation] at hv
      · simp [Entries.get?, Ne.symm hpiid, Ne.symm hrecipient] at hv
    · exact .cons ⟨by decide, rfl⟩ (.cons ⟨by decide, rfl⟩ (.cons ⟨by decide, rfl⟩ .nil))
  exact ⟨_, rfl, record_of_flattens hflattens _ none "root"⟩

end RecordProjection
