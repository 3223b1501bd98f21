import RecordProjection.Proofs.Record.Unflattening

/-!
# The keys that unflattening leaves

Placing a value along a path touches the keys of a mapping on the way in one respect: the next
segment of the path goes to their end, if it is not among them. So the keys of a mapping in an
unflattened payload are those of the mapping that the payload brought there, if it brought one, and
behind them segments of joined keys. These are free of the joiner. On top there are segments only,
so unflattening once more changes nothing.

## Main definitions

* `Joiner.Brought` : a mapping of the payload that stands at the end of a path.
-/
namespace RecordProjection

namespace Value

theorem membersD_eq_nil {v : Option Value} (h : ∀ members, v ≠ some (mapping members)) :
    membersD v = [] := by
  cases v with
  | none => rfl
  | some v =>
    cases v with
    | mapping members => exact absurd rfl (h members)
    | _ => rfl

/-- The members that a path leads to from the members under a key are those that the longer path
leads to. -/
theorem membersD_at?_cons (key : String) (path : List String) (members : Members) :
    membersD ((mapping (membersD (Entries.get? key members))).at? path) =
      membersD ((mapping members).at? (key :: path)) := by
  cases path with
  | nil =>
    rw [at?_nil, at?_singleton]
    rfl
  | cons k path => rw [at?_membersD (List.cons_ne_nil k path)]

end Value

namespace Entries

/-! ## Keys along a path -/

/-- On the way to the place of a value its path puts in one key. -/
theorem at?_place_insert (value : Value) (path : List String) (key : String) (rest : List String)
    (members : Members) : ∃ v,
    (Value.mapping (place value (path ++ key :: rest) members)).at? path =
      some (.mapping (insert key v (Value.membersD ((Value.mapping members).at? path)))) := by
  induction path generalizing members with
  | nil =>
    simp only [List.nil_append, Value.at?_nil, Value.membersD]
    cases rest with
    | nil => exact ⟨value, by rw [place]⟩
    | cons k rest => exact ⟨_, by rw [place_cons value key (List.cons_ne_nil k rest)]⟩
  | cons k path ih =>
    obtain ⟨v, hv⟩ := ih (Value.membersD (get? k members))
    refine ⟨v, ?_⟩
    have hne : path ++ key :: rest ≠ [] := by simp
    rw [List.cons_append, place_cons value k hne, Value.at?_cons, get?_insert, if_pos rfl,
      Option.bind_some, hv, Value.membersD_at?_cons]

/-- Of what stands at a path another one has kept the keys, and has gained some of these. -/
def KeepsKeys (segments : List String) (v w : Option Value) : Prop :=
  ((∃ inner, v = some (.mapping inner)) → ∃ inner, w = some (.mapping inner)) ∧
  ∃ extra, keys (Value.membersD w) = keys (Value.membersD v) ++ extra ∧
    ∀ key ∈ extra, key ∈ segments

theorem KeepsKeys.refl (segments : List String) (v : Option Value) : KeepsKeys segments v v :=
  ⟨id, [], by simp, by simp⟩

theorem KeepsKeys.trans {segments segments' : List String} {u v w : Option Value}
    (h : KeepsKeys segments u v) (h' : KeepsKeys segments' v w) :
    KeepsKeys (segments ++ segments') u w := by
  obtain ⟨hmapping, extra, hkeys, hextra⟩ := h
  obtain ⟨hmapping', extra', hkeys', hextra'⟩ := h'
  refine ⟨fun hu => hmapping' (hmapping hu), extra ++ extra', ?_, ?_⟩
  · rw [hkeys', hkeys, List.append_assoc]
  · intro key hkey
    rcases List.mem_append.1 hkey with hkey | hkey
    · exact List.mem_append_left _ (hextra key hkey)
    · exact List.mem_append_right _ (hextra' key hkey)

/-- Placing a value behind the end of a path, or off it, keeps the keys that stand there. -/
theorem keepsKeys_place (value : Value) {path other : List String} (h : ¬path <+: other)
    (members : Members) : KeepsKeys path ((Value.mapping members).at? other)
      ((Value.mapping (place value path members)).at? other) := by
  by_cases hother : other <+: path
  · obtain ⟨rest, rfl⟩ := hother
    cases rest with
    | nil => simp at h
    | cons key rest =>
      obtain ⟨v, hv⟩ := at?_place_insert value other key rest members
      rw [hv]
      refine ⟨fun _ => ⟨_, rfl⟩, ?_⟩
      rw [Value.membersD, keys_insert]
      split
      · exact ⟨[], by simp, by simp⟩
      · exact ⟨[key], rfl, by simp⟩
  · have hoff : ¬Comparable path other := by
      rintro (hstart | hstart)
      · exact h hstart
      · exact hother hstart
    rw [at?_place_of_not_comparable value hoff]
    exact .refl _ _

theorem keepsKeys_foldl_place {placed : List (List String × Value)} {path : List String}
    (h : ∀ e ∈ placed, ¬e.1 <+: path) (members : Members) :
    KeepsKeys (placed.flatMap Prod.fst) ((Value.mapping members).at? path)
      ((Value.mapping
        (placed.foldl (fun members e => place e.2 e.1 members) members)).at? path) := by
  induction placed generalizing members with
  | nil => exact .refl _ _
  | cons e placed ih =>
    obtain ⟨he, hplaced⟩ := List.forall_mem_cons.1 h
    exact (keepsKeys_place e.2 he members).trans (ih hplaced _)

end Entries

namespace Joiner
variable {j : Joiner} {flat : Members}

/-! ## The levels of an unflattened payload -/

/-- A mapping that a payload brings to a path: the last of its members whose own path ends on the
way has it there, inside its value. -/
def Brought (j : Joiner) (flat : Members) (path : List String) (inner : Members) : Prop :=
  ∃ before e after rest, flat = before ++ e :: after ∧ j.path e.1 ++ rest = path ∧
    (∀ e' ∈ after, ¬j.path e'.1 <+: path) ∧ e.2.at? rest = some (.mapping inner)

/-- Segments of keys are free of the joiner. -/
theorem not_infix_of_mem_paths {members : Members} {key : String}
    (h : key ∈ (members.map fun m => (j.path m.1, m.2)).flatMap Prod.fst) :
    ¬j.chars <:+: key.toList := by
  obtain ⟨placed, hplaced, hkey⟩ := List.mem_flatMap.1 h
  obtain ⟨m, -, rfl⟩ := List.mem_map.1 hplaced
  exact not_infix_of_mem_path hkey

/-- Behind the last member whose own path ends on the way to a path, members keep the keys that
stand there. -/
theorem keepsKeys_unflatten {before after : Members} {e : String × Value} {rest : List String}
    (hflat : (Entries.keys (before ++ e :: after)).Nodup)
    (h : ∀ e' ∈ after, ¬j.path e'.1 <+: j.path e.1 ++ rest) :
    Entries.KeepsKeys ((after.map fun m => (j.path m.1, m.2)).flatMap Prod.fst) (e.2.at? rest)
      ((j.unflatten (.mapping (before ++ e :: after))).at? (j.path e.1 ++ rest)) := by
  have hplaced : ∀ placed ∈ after.map fun m => (j.path m.1, m.2),
      ¬placed.1 <+: j.path e.1 ++ rest := by
    intro placed hplaced
    obtain ⟨e', he', rfl⟩ := List.mem_map.1 hplaced
    exact h e' he'
  have hkeeps := Entries.keepsKeys_foldl_place hplaced (Entries.place e.2 (j.path e.1)
    (Entries.rebuild (before.map fun m => (j.path m.1, m.2))))
  rw [Entries.at?_place_append _ (j.path_ne_nil e.1)] at hkeeps
  rw [unflatten, unflattenMembers_eq hflat, List.map_append, List.map_cons, Entries.rebuild,
    List.foldl_append, List.foldl_cons]
  exact hkeeps

/-- Where no path of a member ends on the way, there are segments only. -/
theorem keepsKeys_unflatten_of_not_prefix (hflat : (Entries.keys flat).Nodup) {path : List String}
    (h : ∀ e ∈ flat, ¬j.path e.1 <+: path) :
    Entries.KeepsKeys ((flat.map fun m => (j.path m.1, m.2)).flatMap Prod.fst)
      ((Value.mapping []).at? path) ((j.unflatten (.mapping flat)).at? path) := by
  have hplaced : ∀ placed ∈ flat.map fun m => (j.path m.1, m.2), ¬placed.1 <+: path := by
    intro placed hplaced
    obtain ⟨e, he, rfl⟩ := List.mem_map.1 hplaced
    exact h e he
  rw [unflatten, unflattenMembers_eq hflat, Entries.rebuild]
  exact Entries.keepsKeys_foldl_place hplaced []

/-- A mapping that was brought to a path is there, its own keys first and as they were. -/
theorem keys_of_brought (hflat : (Entries.keys flat).Nodup) {path : List String} {inner : Members}
    (h : j.Brought flat path inner) : ∃ level extra,
    (j.unflatten (.mapping flat)).at? path = some (.mapping level) ∧
      Entries.keys level = Entries.keys inner ++ extra ∧
      ∀ key ∈ extra, ¬j.chars <:+: key.toList := by
  obtain ⟨before, e, after, rest, rfl, rfl, hafter, hinner⟩ := h
  obtain ⟨hmapping, extra, hkeys, hextra⟩ := keepsKeys_unflatten hflat hafter
  obtain ⟨level, hlevel⟩ := hmapping ⟨inner, hinner⟩
  rw [hinner, hlevel] at hkeys
  exact ⟨level, extra, hlevel, hkeys, fun key hkey => not_infix_of_mem_paths (hextra key hkey)⟩

/-- A mapping that was not brought to its path has keys without the joiner. -/
theorem not_infix_of_not_brought (hflat : (Entries.keys flat).Nodup) {path : List String}
    {level : Members} (hlevel : (j.unflatten (.mapping flat)).at? path = some (.mapping level))
    (h : ∀ inner, ¬j.Brought flat path inner) :
    ∀ key ∈ Entries.keys level, ¬j.chars <:+: key.toList := by
  -- what stood there before the last members is no mapping, or nothing yet
  obtain ⟨members, v, hv, hkeeps⟩ : ∃ (members : Members) (v : Option Value),
      Value.membersD v = [] ∧
      Entries.KeepsKeys ((members.map fun m => (j.path m.1, m.2)).flatMap Prod.fst) v
        (some (.mapping level)) := by
    by_cases hends : ∃ e ∈ flat, j.path e.1 <+: path
    · obtain ⟨before, e, after, rfl, ⟨rest, rfl⟩, hafter⟩ := exists_last hends
      refine ⟨after, e.2.at? rest, Value.membersD_eq_nil fun inner hinner => ?_, ?_⟩
      · exact h inner ⟨before, e, after, rest, rfl, rfl, hafter, hinner⟩
      · rw [← hlevel]
        exact keepsKeys_unflatten hflat hafter
    · have hnone : ∀ e ∈ flat, ¬j.path e.1 <+: path := fun e he hpath => hends ⟨e, he, hpath⟩
      refine ⟨flat, (Value.mapping []).at? path, ?_, ?_⟩
      · cases path with
        | nil => rfl
        | cons key path => rw [Value.at?_empty (List.cons_ne_nil key path)]; rfl
      · rw [← hlevel]
        exact keepsKeys_unflatten_of_not_prefix hflat hnone
  obtain ⟨-, extra, hkeys, hextra⟩ := hkeeps
  have hlevelKeys : Entries.keys level = extra := by rwa [hv] at hkeys
  rw [hlevelKeys]
  exact fun key hkey => not_infix_of_mem_paths (hextra key hkey)

/-- On top there are no keys with the joiner. -/
theorem not_infix_of_mem_unflattenMembers (hflat : (Entries.keys flat).Nodup) :
    ∀ key ∈ Entries.keys (j.unflattenMembers flat), ¬j.chars <:+: key.toList := by
  refine not_infix_of_not_brought hflat (Value.at?_nil _) ?_
  rintro inner ⟨before, e, after, rest, -, hpath, -, -⟩
  exact j.path_ne_nil e.1 (List.append_eq_nil_iff.1 hpath).1

theorem unflattenMembers_of_not_infix
    (h : ∀ key ∈ Entries.keys flat, ¬j.chars <:+: key.toList) : j.unflattenMembers flat = flat := by
  have hplain : j.isPlain flat = true := by
    rw [isPlain, List.all_eq_true]
    intro m hm
    simpa [← occursIn_iff] using h m.1 (List.mem_map_of_mem hm)
  rw [unflattenMembers, if_pos hplain]

/-- What unflattening leaves of the keys of a payload. Keys with the joiner are left only in
mappings that the payload brought itself, which keep their own keys in their order and gain keys
without the joiner behind them; in every other mapping on a way, and on top, no key has the joiner
in it. So unflattening once more changes nothing, not even the order of keys. -/
theorem unflatten_splits_once (j : Joiner) (flat : Members) (hflat : (Entries.keys flat).Nodup) :
    (∃ top, j.unflatten (.mapping flat) = .mapping top ∧
      ∀ key ∈ Entries.keys top, ¬j.chars <:+: key.toList) ∧
    (∀ path level, (j.unflatten (.mapping flat)).at? path = some (.mapping level) →
      (∀ inner, ¬j.Brought flat path inner) →
        ∀ key ∈ Entries.keys level, ¬j.chars <:+: key.toList) ∧
    (∀ path inner, j.Brought flat path inner → ∃ level extra,
      (j.unflatten (.mapping flat)).at? path = some (.mapping level) ∧
        Entries.keys level = Entries.keys inner ++ extra ∧
        ∀ key ∈ extra, ¬j.chars <:+: key.toList) ∧
    j.unflatten (j.unflatten (.mapping flat)) = j.unflatten (.mapping flat) := by
  have htop := not_infix_of_mem_unflattenMembers (j := j) hflat
  refine ⟨⟨_, rfl, htop⟩, ?_, ?_, ?_⟩
  · intro path level hlevel hbrought
    exact not_infix_of_not_brought hflat hlevel hbrought
  · intro path inner hbrought
    exact keys_of_brought hflat hbrought
  · rw [unflatten, unflatten, unflattenMembers_of_not_infix htop]

/-- A joiner that overlaps itself. -/
def doubled : Joiner := ⟨['a', 'a'], by decide⟩

/-- A mapping with a key that has this joiner in it, and a joined key that leads into it. -/
def overlapping : Members := [("bin", .mapping [("kaak", .null)]), ("binaaac", .int 1)]

theorem unflatten_overlapping_splits_once :
    ((Entries.keys overlapping).Nodup ∧ doubled.Brought overlapping ["bin"] [("kaak", .null)]) ∧
    ∃ level extra, (doubled.unflatten (.mapping overlapping)).at? ["bin"] = some (.mapping level) ∧
      Entries.keys level = "kaak" :: extra ∧ ∀ key ∈ extra, ¬doubled.chars <:+: key.toList := by
  have hkeys : (Entries.keys overlapping).Nodup := by decide
  have hbin : doubled.path "bin" = ["bin"] := path_of_not_occursIn (by decide)
  have hcut : doubled.cut "binaaac".toList = (['b', 'i', 'n'], some ['a', 'c']) := by decide
  have hrest : doubled.cut ['a', 'c'] = (['a', 'c'], none) := by decide
  have hjoined : doubled.path "binaaac" = ["bin", "ac"] := by
    rw [path, segments_of_cut_some hcut, segments_of_cut_none hrest]
    rfl
  have hbrought : doubled.Brought overlapping ["bin"] [("kaak", .null)] := by
    refine ⟨[], _, _, [], rfl, by rw [hbin, List.append_nil], ?_, Value.at?_nil _⟩
    simp [hjoined]
  exact ⟨⟨hkeys, hbrought⟩,
    (unflatten_splits_once doubled overlapping hkeys).2.2.1 _ _ hbrought⟩

end Joiner
end RecordProjection
