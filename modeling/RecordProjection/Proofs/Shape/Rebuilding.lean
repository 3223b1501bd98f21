import RecordProjection.CommandLine.Run
import RecordProjection.Proofs.Declaration
import RecordProjection.Proofs.Engine.Transparency
import RecordProjection.Proofs.Json.ReadingBack
import RecordProjection.Proofs.Shape.Payload
import RecordProjection.Proofs.Shape.RoundTrip
import RecordProjection.Shape.Declared

/-!
# Shapes rebuilt from their payloads

The payload of a shape is a declaration of the shape, in whatever order its members stand. What a
payload leaves out is what a declaration need not give, and what a declaration is refused for does
not occur in a payload. So a shape is found again from the text that is printed for it.
-/
namespace RecordProjection

open Declaration

namespace FieldSpec

/-! ## The members of a payload -/

/-- The member of a list in parentheses as it stands in a payload, left out when there is none. -/
def listMember : Option (List FieldSpec) → Members
  | none => []
  | some fs => [("nested_fields", .list (payloads fs))]

/-- The members of a payload. -/
def members (f : FieldSpec) : Members :=
  ("name", .text f.name) :: aliasMember f.alias? ++ listMember f.nested
    ++ [("is_wildcard", .bool f.isWildcard)]

theorem payload_eq (f : FieldSpec) : f.payload = .mapping f.members := by
  cases f with
  | wildcard label nested => cases nested <;> rfl
  | named name key nested h => cases nested <;> simp [payload, members, listMember, FieldSpec.name,
      alias?, FieldSpec.nested, isWildcard]

theorem payloads_eq_map (fs : List FieldSpec) : payloads fs = fs.map payload := by
  induction fs with
  | nil => rfl
  | cons f fs ih => rw [payloads, ih, List.map_cons]

section Members
variable (f : FieldSpec)

theorem get?_name_members : Entries.get? "name" f.members = some (.text f.name) := rfl

theorem get?_alias_members :
    Entries.get? "alias" f.members = f.alias?.map Value.text := by
  rw [members]
  cases f.alias? <;> cases f.nested <;> simp [aliasMember, listMember, Entries.get?]

theorem get?_nested_members : Entries.get? "nested_fields" f.members =
    f.nested.map fun fs => .list (fs.map payload) := by
  rw [members]
  cases f.alias? <;> cases f.nested <;>
    simp [aliasMember, listMember, Entries.get?, payloads_eq_map]

theorem get?_isWildcard_members :
    Entries.get? "is_wildcard" f.members = some (.bool f.isWildcard) := by
  rw [members]
  cases f.alias? <;> cases f.nested <;> simp [aliasMember, listMember, Entries.get?]

theorem keys_members_sublist :
    (Entries.keys f.members).Sublist ["name", "alias", "nested_fields", "is_wildcard"] := by
  rw [members]
  cases f.alias? <;> cases f.nested <;> simp [aliasMember, listMember, Entries.keys]

end Members

/-! ## Declarations -/

/-- The list in parentheses is a member that may be left out. -/
theorem nestedMember_eq (members : Members) :
    nestedMember members = Declaration.optional members "nested_fields" none nestedList := by
  induction members with
  | nil => rfl
  | cons m members ih =>
    obtain ⟨key, v⟩ := m
    rw [nestedMember]
    by_cases h : key = "nested_fields"
    · subst h
      rw [if_pos rfl, Declaration.optional, Entries.get?, if_pos rfl]
    · rw [if_neg h, ih, Declaration.optional, Declaration.optional, Entries.get?, if_neg h]

theorem ofDeclarations_eq_ok {vs : List Value} {fs : List FieldSpec}
    (h : List.Forall₂ (fun v f => ofDeclaration v = .ok f) vs fs) (index : Nat) :
    ofDeclarations index vs = .ok fs := by
  induction h generalizing index with
  | nil => rfl
  | cons hv _ ih => rw [ofDeclarations, hv, ih]; rfl

/-- The parts of a field make the field. -/
theorem ofParts_eq (f : FieldSpec) : ofParts f.name f.alias? f.nested f.isWildcard = .ok f := by
  cases f with
  | wildcard label nested => rfl
  | named name key nested h => exact dif_pos h

/-- Under the name of a wildcard the flag is not read, but it would say the same. -/
theorem wildcardFlag_eq_ok {f : FieldSpec} {members : Members}
    (hname : Entries.get? "name" members = some (.text f.name))
    (hkind : Entries.get? "is_wildcard" members = some (.bool f.isWildcard)) :
    wildcardFlag members = .ok f.isWildcard := by
  have hread : Declaration.optional members "is_wildcard" false flag = .ok f.isWildcard :=
    optional_eq_ok_iff.2 (.inr ⟨_, hkind, rfl⟩)
  have hstar : isStar members = decide (f.name = "*") := by rw [isStar, hname]
  rw [wildcardFlag, hstar, hread]
  cases f with
  | wildcard label nested => exact ite_self _
  | named name key nested h => exact if_neg fun hname => h (of_decide_eq_true hname)

/-- A declaration whose parts are in order gives the field with these parts. -/
theorem ofDeclaration_eq_ofParts {members : Members} {name : String} {key : Option String}
    {nested : Option (List FieldSpec)} {isWildcard : Bool}
    (hname : required members "name" Declaration.text = .ok name)
    (hkey : Declaration.optional members "alias" none optionalText = .ok key)
    (hnested : nestedMember members = .ok nested) (hkind : wildcardFlag members = .ok isWildcard)
    (honly : onlyMembers members ["name", "alias", "nested_fields", "is_wildcard"] = .ok ()) :
    ofDeclaration (.mapping members) = ofParts name key nested isWildcard := by
  rw [ofDeclaration, hname, hkey, hnested, hkind, honly]
  rfl

/-- A field is what its payload declares, in whatever order the members stand. -/
theorem ofDeclaration_of_rearranged (f : FieldSpec) :
    ∀ v : Value, v.Rearranged f.payload → ofDeclaration v = .ok f := by
  induction f using FieldSpec.induction with
  | step f ih =>
    intro v hv
    rw [payload_eq] at hv
    obtain ⟨members, rfl, habsent, hpresent⟩ := hv.of_mapping
    have hname : Entries.get? "name" members = some (.text f.name) := by
      obtain ⟨u, hu, hsame⟩ := hpresent "name" _ f.get?_name_members
      rw [hu, hsame.eq_of_text]
    have hkind : Entries.get? "is_wildcard" members = some (.bool f.isWildcard) := by
      obtain ⟨u, hu, hsame⟩ := hpresent "is_wildcard" _ f.get?_isWildcard_members
      rw [hu, hsame.eq_of_bool]
    have halias : Declaration.optional members "alias" none optionalText = .ok f.alias? := by
      have hget := f.get?_alias_members
      rw [optional_eq_ok_iff]
      cases hkey : f.alias? with
      | none => exact .inl ⟨habsent "alias" (by rw [hget, hkey]; rfl), rfl⟩
      | some a =>
        obtain ⟨u, hu, hsame⟩ := hpresent "alias" (.text a) (by rw [hget, hkey]; rfl)
        exact .inr ⟨u, hu, optionalText_eq_ok_iff.2 (.inr ⟨a, hsame.eq_of_text, rfl⟩)⟩
    have hnested : nestedMember members = .ok f.nested := by
      have hget := f.get?_nested_members
      rw [nestedMember_eq, optional_eq_ok_iff]
      cases hlist : f.nested with
      | none => exact .inl ⟨habsent "nested_fields" (by rw [hget, hlist]; rfl), rfl⟩
      | some fs =>
        obtain ⟨u, hu, hsame⟩ := hpresent "nested_fields" (.list (fs.map payload))
          (by rw [hget, hlist]; rfl)
        obtain ⟨items, rfl, hitems⟩ := hsame.of_list
        -- the items of the list may be rearranged inside, so they need not be payloads themselves
        have hfields : List.Forall₂ (fun v g => ofDeclaration v = .ok g) items fs := by
          rw [List.forall₂_map_right_iff] at hitems
          exact forall₂_imp_of_mem hitems fun v g hg hv => ih fs hlist g hg v hv
        exact .inr ⟨_, hu, by rw [nestedList, ofDeclarations_eq_ok hfields]; rfl⟩
    have honly :
        onlyMembers members ["name", "alias", "nested_fields", "is_wildcard"] = .ok () :=
      onlyMembers_of_absent (fun key hkey => f.keys_members_sublist.mem hkey) habsent
    have hrequired : required members "name" Declaration.text = .ok f.name :=
      required_eq_ok_iff.2 ⟨_, hname, rfl⟩
    rw [ofDeclaration_eq_ofParts hrequired halias hnested (wildcardFlag_eq_ok hname hkind) honly]
    exact f.ofParts_eq

/-- A payload can be written and read back. -/
theorem storable_payload (f : FieldSpec) : f.payload.Storable := by
  induction f using FieldSpec.induction with
  | step f ih =>
    have hdistinct : (Entries.keys f.members).Nodup :=
      List.Nodup.sublist f.keys_members_sublist (by decide)
    rw [payload_eq]
    refine .mapping hdistinct fun m hm => ?_
    rw [members, List.mem_append, List.cons_append, List.mem_cons, List.mem_append,
      List.mem_singleton] at hm
    rcases hm with (rfl | hm | hm) | rfl
    · exact .text _
    · cases hkey : f.alias? with
      | none => simp [aliasMember, hkey] at hm
      | some a =>
        obtain rfl : m = ("alias", .text a) := by simpa [aliasMember, hkey] using hm
        exact .text _
    · cases hlist : f.nested with
      | none => simp [listMember, hlist] at hm
      | some fs =>
        obtain rfl : m = ("nested_fields", .list (payloads fs)) := by
          simpa [listMember, hlist] using hm
        refine .list fun v hv => ?_
        rw [payloads_eq_map] at hv
        obtain ⟨g, hg, rfl⟩ := List.mem_map.1 hv
        exact ih fs hlist g hg
    · exact .bool _

end FieldSpec

namespace Shape

/-- A shape is what its payload declares, in whatever order the members stand. -/
theorem ofDeclaration_of_rearranged (s : Shape) {members : Members}
    (h : (Value.mapping members).Rearranged s.payload) : ofDeclaration members = .ok s := by
  obtain ⟨members', heq, habsent, hpresent⟩ := h.of_mapping
  obtain rfl := Value.mapping.inj heq
  obtain ⟨v, hfields, hsame⟩ := hpresent "fields" _ rfl
  obtain ⟨items, rfl, hitems⟩ := hsame.of_list
  rw [FieldSpec.payloads_eq_map, List.forall₂_map_right_iff] at hitems
  have hread : Declaration.optional members "fields" [] declaredFields = .ok s.fields := by
    refine optional_eq_ok_iff.2 (.inr ⟨_, hfields, FieldSpec.ofDeclarations_eq_ok ?_ 0⟩)
    exact forall₂_imp_of_mem hitems fun v f _ hv => f.ofDeclaration_of_rearranged v hv
  have hflag (key : String) {b : Bool}
      (hkey : Entries.get? key [("fields", Value.list (FieldSpec.payloads s.fields)),
        ("is_flat", .bool s.isFlat), ("is_flat_lists", .bool s.isFlatLists)] = some (.bool b)) :
      Declaration.optional members key false flag = .ok b := by
    obtain ⟨v, hv, hsame⟩ := hpresent key _ hkey
    rw [hsame.eq_of_bool] at hv
    exact optional_eq_ok_iff.2 (.inr ⟨_, hv, rfl⟩)
  have honly : onlyMembers members ["fields", "is_flat", "is_flat_lists"] = .ok () := by
    refine onlyMembers_of_absent ?_ habsent
    exact fun key hkey => hkey
  rw [ofDeclaration, hread, hflag "is_flat" rfl, hflag "is_flat_lists" rfl, honly]
  rfl

theorem storable_payload (s : Shape) : s.payload.Storable := by
  refine .mapping (by simp [Entries.keys]) ?_
  simp only [List.forall_mem_cons, List.not_mem_nil, false_imp_iff, implies_true, and_true]
  refine ⟨.list fun v hv => ?_, .bool _, .bool _⟩
  rw [FieldSpec.payloads_eq_map] at hv
  obtain ⟨f, -, rfl⟩ := List.mem_map.1 hv
  exact f.storable_payload

/-- The canonical text of a shape is read as a declaration of the shape. -/
theorem read_canonical (s : Shape) : ∃ members,
    Json.read s.canonical.toList = .ok (.mapping members) ∧ ofDeclaration members = .ok s := by
  have hread : Json.read s.canonical.toList = .ok s.payload.sorted :=
    s.storable_payload.read_canonical
  have hsorted : s.payload.sorted.Rearranged s.payload :=
    s.storable_payload.distinctKeys.rearranged_sorted
  rw [sorted_payload] at hread hsorted
  exact ⟨s.sortedMembers, hread, s.ofDeclaration_of_rearranged hsorted⟩

/-- A command line that parses a text prints the canonical text of its shape. -/
theorem ending_of_parse {s : Shape} {text : String} (hparse : parse text = .ok s)
    {files : CommandLine.Files} {input : String} {arguments : List String}
    {invocation : CommandLine.Invocation} {registry : Registry}
    (hread : CommandLine.readInvocation arguments = .ok invocation)
    (hcommand : invocation.command = .parse text)
    (hload : CommandLine.loadRegistry files invocation.schema = .ok registry) :
    (CommandLine.run files input arguments).ending = .printed (s.canonical ++ "\n") := by
  have hresult (e : Engine) : (e.parse e.freshMemory text).result = .ok s := by
    rw [(Engine.gives_parse (faithful_freshMemory e) text).result_eq, hparse]
    rfl
  rw [CommandLine.run, hread]
  simp only [hload, hcommand, CommandLine.runCommand, CommandLine.printing, hresult]
  rfl

/-- The payload of a shape rebuilds it, and so does the text that a command line prints for it. -/
theorem payload_rebuilds (s : Shape) :
    (∀ v : Value, v.Rearranged s.payload → ∃ members s', v = .mapping members ∧
      ofDeclaration members = .ok s' ∧ s' = s ∧ s'.payload = s.payload ∧
      s'.fingerprint = s.fingerprint ∧ ∀ model, s'.cacheKey model = s.cacheKey model) ∧
    (∃ members, Json.read s.canonical.toList = .ok (.mapping members) ∧
      ofDeclaration members = .ok s) ∧
    ∀ text, parse text = .ok s →
      ∀ (files : CommandLine.Files) (input : String) (arguments : List String)
        (invocation : CommandLine.Invocation) (registry : Registry),
        CommandLine.readInvocation arguments = .ok invocation →
        invocation.command = .parse text →
        CommandLine.loadRegistry files invocation.schema = .ok registry →
        (CommandLine.run files input arguments).ending = .printed (s.canonical ++ "\n") := by
  refine ⟨?_, s.read_canonical, ?_⟩
  · intro v hv
    obtain ⟨members, rfl, -⟩ := Value.Rearranged.of_mapping hv
    exact ⟨members, s, rfl, s.ofDeclaration_of_rearranged hv, rfl, rfl, rfl, fun _ => rfl⟩
  · intro text hparse files input arguments invocation registry hread hcommand hload
    exact ending_of_parse hparse hread hcommand hload

/-- All fields, and in each of them `key` under another name. -/
def starred : Shape :=
  ⟨[.wildcard "*" (some [.named "key" (some "id") none (by decide)])], false, false⟩

theorem grammatical_starred : starred.Grammatical := by
  let key : Identifier := ⟨'k', ['e', 'y'], rfl, List.all_eq_true.1 rfl⟩
  let id : Identifier := ⟨'i', ['d'], rfl, List.all_eq_true.1 rfl⟩
  have hkey : ((FieldHead.named key (some id)).field none).Grammatical := .named key (some id) nofun
  refine ⟨List.cons_ne_nil _ _, ?_, rfl, rfl⟩
  intro f hf
  obtain rfl := List.mem_singleton.1 hf
  refine .wildcard ?_
  rintro fs ⟨⟩ f hf
  exact List.mem_singleton.1 hf ▸ hkey

theorem parse_starred : parse "*(key::id)" = .ok starred := by
  have htext : starred.text = "*(key::id)" := rfl
  rw [← htext]
  exact parse_text_of_grammatical grammatical_starred

/-- The payload of a shape that a command line parses. -/
theorem payload_rebuilds_starred : parse "*(key::id)" = .ok starred ∧
    (∃ members s', starred.payload = .mapping members ∧ ofDeclaration members = .ok s' ∧
      s' = starred ∧ s'.fingerprint = starred.fingerprint) ∧
    (CommandLine.run (fun _ => .error .missing) "" ["parse", "*(key::id)"]).ending =
      .printed (starred.canonical ++ "\n") := by
  have h := payload_rebuilds starred
  refine ⟨parse_starred, ?_, ?_⟩
  · obtain ⟨members, s', hpayload, hread, heq, -, hprint, -⟩ := h.1 _ (.refl _)
    exact ⟨members, s', hpayload, hread, heq, hprint⟩
  · exact h.2.2 _ parse_starred _ _ _ ⟨.parse "*(key::id)", false, none⟩ .builtin rfl rfl rfl

end Shape
end RecordProjection
