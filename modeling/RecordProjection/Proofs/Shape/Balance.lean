import RecordProjection.Proofs.Shape.Language

/-!
# Balanced parentheses

Parentheses are counted from the front: nowhere have more been closed than opened, and at the end
as many. The texts of fields and of lists of fields are balanced.
-/
namespace RecordProjection

open Text Shape

/-- Every closing parenthesis has its opening one before it, and none stays open. -/
structure Text.Balanced (cs : List Char) : Prop where
  opened : ∀ front, front <+: cs → front.count ')' ≤ front.count '('
  closed : cs.count ')' = cs.count '('

namespace Text

theorem Balanced.of_notMem {cs : List Char} (hopen : '(' ∉ cs) (hclose : ')' ∉ cs) :
    Balanced cs := by
  refine ⟨?_, ?_⟩
  · intro front hfront
    have hnone : ')' ∉ front := fun h => hclose (hfront.subset h)
    rw [List.count_eq_zero_of_not_mem hnone]
    exact Nat.zero_le _
  · rw [List.count_eq_zero_of_not_mem hclose, List.count_eq_zero_of_not_mem hopen]

theorem Balanced.append {cs ds : List Char} (h : Balanced cs) (h' : Balanced ds) :
    Balanced (cs ++ ds) := by
  refine ⟨?_, ?_⟩
  · intro front hfront
    rcases List.prefix_or_prefix_of_prefix hfront (List.prefix_append cs ds) with hin | ⟨r, rfl⟩
    · exact h.opened front hin
    · have hr := h'.opened r ((List.prefix_append_right_inj cs).1 hfront)
      rw [List.count_append, List.count_append, h.closed]
      omega
  · rw [List.count_append, List.count_append, h.closed, h'.closed]

theorem Balanced.parenthesized {cs : List Char} (h : Balanced cs) :
    Balanced ('(' :: cs ++ [')']) := by
  refine ⟨?_, ?_⟩
  · intro front hfront
    rcases List.prefix_concat_iff.1 hfront with rfl | hfront
    · simp [h.closed]
    · rcases List.prefix_cons_iff.1 hfront with rfl | ⟨r, rfl, hr⟩
      · simp
      · have hcount := h.opened r hr
        simp only [List.count_cons_self, List.count_cons_of_ne (by decide : '(' ≠ ')')]
        omega
  · simp [h.closed]

theorem Blanks.balanced {w : List Char} (hw : Blanks w) : Balanced w := by
  refine .of_notMem ?_ ?_
  · intro h
    exact absurd (hw _ h) (by decide)
  · intro h
    exact absurd (hw _ h) (by decide)

end Text

theorem FieldHead.balanced_chars (head : FieldHead) : Balanced head.chars := by
  have hidentifier (i : Identifier) : Balanced i.chars := by
    refine .of_notMem ?_ ?_
    · intro h
      exact absurd (i.isIdentifierPart_of_mem h) (by decide)
    · intro h
      exact absurd (i.isIdentifierPart_of_mem h) (by decide)
  cases head with
  | wildcard => exact .of_notMem (by simp [chars]) (by simp [chars])
  | named name key =>
    cases key with
    | none => exact hidentifier name
    | some key =>
      have hcolons : Balanced [':', ':'] := .of_notMem (by simp) (by simp)
      exact (hidentifier name).append (hcolons.append (hidentifier key))

theorem Separates.balanced {cs ds s : List Char} (h : Separates cs ds s) : Balanced s := by
  cases h with
  | comma hw hw' =>
    have hcomma : Balanced [','] := .of_notMem (by simp) (by simp)
    exact hw.balanced.append (hcomma.append hw'.balanced)
  | blanks hw => exact hw.balanced

mutual

theorem DerivesField.balanced {cs : List Char} {f : FieldSpec} : DerivesField cs f → Balanced cs
  | .bare head => head.balanced_chars
  | .listed head hw h => by
    rw [List.append_assoc]
    exact (head.balanced_chars.append hw.balanced).append h.balanced.parenthesized

theorem DerivesFields.balanced {cs : List Char} {fs : List FieldSpec} :
    DerivesFields cs fs → Balanced cs
  | .one h => h.balanced
  | .more h hs h' => (h.balanced.append hs.balanced).append h'.balanced

/-- The text of a list of fields is balanced. -/
theorem DerivesList.balanced {cs : List Char} {fs : List FieldSpec} :
    DerivesList cs fs → Balanced cs
  | .blank hw => hw.balanced
  | .fields hw h hw' => (hw.balanced.append h.balanced).append hw'.balanced

end

end RecordProjection
