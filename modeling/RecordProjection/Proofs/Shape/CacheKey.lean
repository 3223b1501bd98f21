import RecordProjection.Proofs.Shape.Payload

/-!
# Cache keys are never shared

A cache key is the name of a record type, a colon and the canonical text of a shape. The name may
hold anything, so the colon is not found by looking for colons: it is the one before the last
place where the mark `{"f` stands. A canonical text begins with this mark, and the mark stands
nowhere else in it, since only the outermost mapping of a payload has `fields` for its first key
and no quotation mark inside a text stays without its backslash.

## Main definitions

* `Json.mark` : the three characters that a canonical text of a shape begins with.
* `Json.Quiet` : text in front of which nothing forms the mark.
-/
namespace RecordProjection

namespace Json

/-- The first three characters of the canonical text of a shape. -/
def mark : List Char := ['{', '"', 'f']

/-- Text that stands before anything but an `f` without adding a mark to what follows. -/
def Quiet (cs : List Char) : Prop :=
  ∀ x : List Char, x.head? ≠ some 'f' → ¬ mark <:+: x → ¬ mark <:+: cs ++ x

theorem mark_not_infix_cons {c : Char} {x : List Char} (hc : c ≠ '{') (h : ¬ mark <:+: x) :
    ¬ mark <:+: c :: x := by
  rw [List.infix_cons_iff]
  rintro (hfront | hinfix)
  · exact hc (List.cons_prefix_cons.1 hfront).1.symm
  · exact h hinfix

theorem mark_not_infix_append {cs x : List Char} (hcs : '{' ∉ cs) (h : ¬ mark <:+: x) :
    ¬ mark <:+: cs ++ x := by
  induction cs with
  | nil => exact h
  | cons c cs ih =>
    rw [List.mem_cons, not_or] at hcs
    exact mark_not_infix_cons (Ne.symm hcs.1) (ih hcs.2)

theorem quiet_of_notMem {cs : List Char} (h : '{' ∉ cs) : Quiet cs :=
  fun _ _ hx => mark_not_infix_append h hx

theorem Quiet.append_cons {cs ds : List Char} {c : Char} (hcs : Quiet cs) (hbrace : c ≠ '{')
    (hf : c ≠ 'f') (hds : Quiet ds) : Quiet (cs ++ c :: ds) := by
  intro x hhead hx
  rw [List.append_assoc]
  exact hcs _ (by simpa using hf) (mark_not_infix_cons hbrace (hds x hhead hx))

/-! ## Quoted texts -/

/-- Escaping leaves no quotation mark at the front of a character. -/
theorem escapedChar_eq_cons (c : Char) : ∃ d r, escapedChar c = d :: r ∧ d ≠ '"' := by
  rw [escapedChar]
  split_ifs with hmark
  all_goals first
    | exact ⟨'\\', _, rfl, by decide⟩
    | exact ⟨c, _, rfl, hmark⟩

theorem brace_notMem_escapedChar {c : Char} (h : c ≠ '{') : '{' ∉ escapedChar c := by
  rw [escapedChar]
  split_ifs with _ _ _ _ _ _ _ hcontrol
  all_goals try decide
  · have hall : ∀ n < 0x20, '{' ∉ '\\' :: 'u' :: Text.hexDigits 4 n := by decide
    exact hall c.toNat hcontrol
  · simpa using Ne.symm h

theorem mark_not_infix_escapedChars (cs : List Char) {x : List Char}
    (hhead : x.head? ≠ some 'f') (hx : ¬ mark <:+: x) :
    ¬ mark <:+: cs.flatMap escapedChar ++ '"' :: x := by
  induction cs with
  | nil => exact mark_not_infix_cons (by decide) hx
  | cons c cs ih =>
    rw [List.flatMap_cons, List.append_assoc]
    by_cases hc : c = '{'
    · -- only a brace could begin the mark, and what follows it is no bare quotation mark with an f
      subst hc
      rw [show escapedChar '{' = ['{'] by decide, List.singleton_append, List.infix_cons_iff]
      rintro (hfront | hinfix)
      · have hquote := (List.cons_prefix_cons.1 hfront).2
        cases cs with
        | nil =>
          have hf := (List.cons_prefix_cons.1 hquote).2
          cases x with
          | nil => simp at hf
          | cons d x => exact hhead (by simpa using (List.cons_prefix_cons.1 hf).1.symm)
        | cons e cs =>
          obtain ⟨d, r, hd, hne⟩ := escapedChar_eq_cons e
          rw [List.flatMap_cons, hd] at hquote
          exact hne (List.cons_prefix_cons.1 hquote).1.symm
      · exact ih hinfix
    · exact mark_not_infix_append (brace_notMem_escapedChar hc) ih

theorem quiet_quotedChars (cs : List Char) : Quiet (quotedChars cs) := by
  intro x hhead hx
  rw [quotedChars, List.cons_append, List.cons_append, List.append_assoc]
  exact mark_not_infix_cons (by decide) (mark_not_infix_escapedChars cs hhead hx)

/-! ## Values -/

theorem quiet_intercalate {css : List (List Char)} (h : ∀ cs ∈ css, Quiet cs) :
    Quiet (List.intercalate [','] css) := by
  induction css with
  | nil => exact quiet_of_notMem (by simp)
  | cons cs css ih =>
    have hcs := h cs List.mem_cons_self
    have hcss := ih fun ds hds => h ds (List.mem_cons_of_mem _ hds)
    cases css with
    | nil => simpa using hcs
    | cons ds css =>
      rw [show List.intercalate [','] (cs :: ds :: css) =
        cs ++ ',' :: List.intercalate [','] (ds :: css) by simp]
      exact hcs.append_cons (by decide) (by decide) hcss

theorem quiet_list {items : List Value} (h : ∀ v ∈ items, Quiet v.orderedChars) :
    Quiet (Value.list items).orderedChars := by
  have hitems : Quiet (List.intercalate [','] (items.map Value.orderedChars)) := by
    refine quiet_intercalate ?_
    intro cs hcs
    obtain ⟨v, hv, rfl⟩ := List.mem_map.1 hcs
    exact h v hv
  have hclosed : Quiet (List.intercalate [','] (items.map Value.orderedChars) ++ [']']) :=
    hitems.append_cons (by decide) (by decide) (quiet_of_notMem List.not_mem_nil)
  intro x hhead hx
  rw [Value.orderedChars, Value.orderedItems_eq_map]
  exact mark_not_infix_cons (by decide) (hclosed x hhead hx)

theorem quiet_members {members : List (String × Value)}
    (h : ∀ m ∈ members, Quiet m.2.orderedChars) :
    Quiet (List.intercalate [','] (members.map Value.memberChars) ++ ['}']) := by
  refine Quiet.append_cons ?_ (by decide) (by decide) (quiet_of_notMem List.not_mem_nil)
  refine quiet_intercalate ?_
  intro cs hcs
  obtain ⟨m, hm, rfl⟩ := List.mem_map.1 hcs
  exact (quiet_quotedChars _).append_cons (by decide) (by decide) (h m hm)

/-- A mapping forms no mark if its first key does not begin with an `f`. -/
theorem quiet_mapping {members : List (String × Value)}
    (hfirst : ∀ m ∈ members.head?, ∃ c r, quotedChars m.1.toList = '"' :: c :: r ∧ c ≠ 'f')
    (h : ∀ m ∈ members, Quiet m.2.orderedChars) :
    Quiet (Value.mapping members).orderedChars := by
  intro x hhead hx
  rw [Value.orderedChars, Value.orderedMembers_eq_map, List.cons_append, List.cons_append,
    List.infix_cons_iff]
  rintro (hfront | hinfix)
  · have hquote := (List.cons_prefix_cons.1 hfront).2
    cases members with
    | nil => exact absurd (List.cons_prefix_cons.1 hquote).1 (by decide)
    | cons m members =>
      obtain ⟨c, r, hkey, hc⟩ := hfirst m rfl
      rw [Value.intercalate_cons, Value.memberChars, hkey] at hquote
      exact hc (List.cons_prefix_cons.1 (List.cons_prefix_cons.1 hquote).2).1.symm
  · exact quiet_members h x hhead hx hinfix

/-! ## The colon of a key -/

/-- The colon before a marked text that has no second mark stands where it does in the other
reading, or there would be a second mark. -/
theorem eq_nil_of_join {a j j' : List Char} (hj : mark <+: j) (hj' : mark <+: j')
    (honce : ¬ mark <:+: j.tail) (h : ':' :: j = a ++ ':' :: j') : a = [] := by
  cases a with
  | nil => rfl
  | cons c a =>
    rw [List.cons_append, List.cons.injEq] at h
    obtain ⟨r, rfl⟩ := hj'
    refine absurd ?_ honce
    cases a with
    | nil =>
      rw [h.2] at hj
      exact absurd (List.cons_prefix_cons.1 hj).1 (by decide)
    | cons d a => exact ⟨a ++ [':'], r, by simp [h.2]⟩

theorem join_inj {b b' j j' : List Char} (hj : mark <+: j) (hj' : mark <+: j')
    (honce : ¬ mark <:+: j.tail) (honce' : ¬ mark <:+: j'.tail)
    (h : b ++ ':' :: j = b' ++ ':' :: j') : b = b' ∧ j = j' := by
  rcases List.append_eq_append_iff.1 h with ⟨a, hb, hrest⟩ | ⟨a, hb, hrest⟩
  · obtain rfl := eq_nil_of_join hj hj' honce hrest
    exact ⟨by simpa using hb.symm, by simpa using hrest⟩
  · obtain rfl := eq_nil_of_join hj' hj honce' hrest
    exact ⟨by simpa using hb, by simpa using hrest.symm⟩

end Json

open Json

theorem quiet_bool (b : Bool) : Quiet (Value.bool b).orderedChars := by
  cases b <;> exact quiet_of_notMem (by decide)

namespace FieldSpec

theorem quiet_payloads {fs : List FieldSpec} (h : ∀ f ∈ fs, Quiet f.sortedPayload.orderedChars) :
    Quiet (Value.list (fs.map sortedPayload)).orderedChars := by
  refine quiet_list ?_
  intro v hv
  obtain ⟨f, hf, rfl⟩ := List.mem_map.1 hv
  exact h f hf

/-- The first key of a payload is the alias or the kind. -/
theorem first_key (f : FieldSpec) :
    ∀ m ∈ f.sortedMembers.head?, ∃ c r, quotedChars m.1.toList = '"' :: c :: r ∧ c ≠ 'f' := by
  intro m hm
  cases hkey : f.alias? with
  | none =>
    obtain rfl : ("is_wildcard", Value.bool f.isWildcard) = m := by
      simpa [sortedMembers, hkey, aliasMember] using hm
    exact ⟨'i', "s_wildcard\"".toList, by simp [quotedChars, escapedChar], by decide⟩
  | some a =>
    obtain rfl : ("alias", Value.text a) = m := by
      simpa [sortedMembers, hkey, aliasMember] using hm
    exact ⟨'a', "lias\"".toList, by simp [quotedChars, escapedChar], by decide⟩

/-- No mark stands in the payload of a field. -/
theorem quiet_sortedPayload (f : FieldSpec) : Quiet f.sortedPayload.orderedChars := by
  induction f using FieldSpec.induction with
  | step f ih =>
    rw [sortedPayload_eq]
    refine quiet_mapping f.first_key (f.forall_mem_sortedMembers ?_ (quiet_bool _) ?_ ?_)
    · intro a _
      exact quiet_quotedChars a.toList
    · exact quiet_quotedChars f.name.toList
    · intro fs hfs
      exact quiet_payloads (ih fs hfs)

end FieldSpec

namespace Shape

theorem mark_prefix_canonicalChars (s : Shape) : mark <+: s.payload.canonicalChars := by
  rw [Value.canonicalChars_eq, sorted_payload]
  exact ⟨_, rfl⟩

theorem mark_not_infix_tail (s : Shape) : ¬ mark <:+: s.payload.canonicalChars.tail := by
  have hmembers :
      Quiet (List.intercalate [','] (s.sortedMembers.map Value.memberChars) ++ ['}']) := by
    refine quiet_members (s.forall_mem_sortedMembers ?_ (quiet_bool _) (quiet_bool _))
    exact FieldSpec.quiet_payloads fun f _ => f.quiet_sortedPayload
  have := hmembers [] (by simp) (by decide)
  rw [List.append_nil] at this
  rw [Value.canonicalChars_eq, sorted_payload, Value.orderedChars, Value.orderedMembers_eq_map]
  exact this

/-- The key of a shape on a record type determines both. -/
theorem eq_of_cacheKey_eq {model model' : String} {s s' : Shape}
    (h : s.cacheKey model = s'.cacheKey model') : model = model' ∧ s = s' := by
  have hchars : model.toList ++ ':' :: s.payload.canonicalChars =
      model'.toList ++ ':' :: s'.payload.canonicalChars := by
    simpa [cacheKey, canonical, Value.canonical] using congrArg String.toList h
  obtain ⟨hmodel, hcanonical⟩ := join_inj s.mark_prefix_canonicalChars
    s'.mark_prefix_canonicalChars s.mark_not_infix_tail s'.mark_not_infix_tail hchars
  exact ⟨String.toList_inj.1 hmodel, canonical_inj (congrArg String.ofList hcanonical)⟩

/-- Two shapes on two record types have the same key just when both are the same. -/
theorem cacheKey_eq_iff (model model' : String) (s s' : Shape) :
    s.cacheKey model = s'.cacheKey model' ↔ model = model' ∧ s = s' := by
  refine ⟨eq_of_cacheKey_eq, ?_⟩
  rintro ⟨rfl, rfl⟩
  rfl

end Shape
end RecordProjection
