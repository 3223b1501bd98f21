import Mathlib.Data.List.Basic
import RecordProjection.Proofs.Shape.Grammar

/-!
# Trimmed texts

What trimming does to a text that is put together from others: blanks around it go, and a text that
has none at either end stays at the front of whatever is put behind it.
-/
namespace RecordProjection.Text

theorem isBlank_head?_trimChars (cs : List Char) :
    ∀ c ∈ (trimChars cs).head?, isBlank c = false := by
  have hprefix : trimChars cs <+: dropBlanks cs := by
    rw [← List.reverse_suffix, trimChars, List.reverse_reverse]
    exact List.dropWhile_suffix isBlank
  intro c hc
  obtain ⟨r, hr⟩ := hprefix
  apply isBlank_head?_dropBlanks cs
  rw [← hr, List.head?_append, Option.mem_def.1 hc]
  rfl

theorem isBlank_getLast?_trimChars (cs : List Char) :
    ∀ c ∈ (trimChars cs).getLast?, isBlank c = false := by
  rw [trimChars, List.getLast?_reverse]
  exact isBlank_head?_dropBlanks _

/-- Trimming takes nothing but blanks away. -/
theorem exists_blanks_around_trimChars (cs : List Char) :
    ∃ w w', Blanks w ∧ Blanks w' ∧ cs = w ++ trimChars cs ++ w' := by
  have hsplit (ds : List Char) : ds = ds.takeWhile isBlank ++ dropBlanks ds :=
    List.takeWhile_append_dropWhile.symm
  obtain ⟨w', hw'⟩ : ∃ w', w' = (dropBlanks cs).reverse.takeWhile isBlank := ⟨_, rfl⟩
  refine ⟨cs.takeWhile isBlank, w'.reverse, blanks_takeWhile cs, ?_, ?_⟩
  · intro c hc
    rw [hw'] at hc
    exact blanks_takeWhile _ c (List.mem_reverse.1 hc)
  · have hback : dropBlanks cs = trimChars cs ++ w'.reverse := by
      rw [trimChars, ← List.reverse_append, hw', ← hsplit, List.reverse_reverse]
    rw [List.append_assoc, ← hback, ← hsplit]

section Around
variable {cs : List Char} (hne : cs ≠ []) (hhead : ∀ c ∈ cs.head?, isBlank c = false)
  (hlast : ∀ c ∈ cs.getLast?, isBlank c = false)
include hne hhead hlast

/-- Blanks around a text without blanks at its ends are what is trimmed. -/
theorem trimChars_between {w w' : List Char} (hw : Blanks w) (hw' : Blanks w') :
    trimChars (w ++ cs ++ w') = cs := by
  have hfront : ∀ c ∈ (cs ++ w').head?, isBlank c = false := by
    rwa [List.head?_append_of_ne_nil _ hne]
  have hback : Blanks w'.reverse := by
    intro c hc
    exact hw' c (List.mem_reverse.1 hc)
  rw [← List.head?_reverse] at hlast
  rw [trimChars, List.append_assoc, hw.dropBlanks_append, dropBlanks_eq_self hfront,
    List.reverse_append, hback.dropBlanks_append, dropBlanks_eq_self hlast, List.reverse_reverse]

/-- A text without blanks at its ends stays at the front of a longer one. -/
theorem exists_trimChars_append (x : List Char) : ∃ x', trimChars (cs ++ x) = cs ++ x' := by
  have hfront : ∀ c ∈ (cs ++ x).head?, isBlank c = false := by
    rwa [List.head?_append_of_ne_nil _ hne]
  have hback : dropBlanks (x.reverse ++ cs.reverse) = dropBlanks x.reverse ++ cs.reverse := by
    rw [← List.head?_reverse] at hlast
    rw [dropBlanks, dropBlanks, List.dropWhile_append]
    split
    · next hempty =>
      rw [List.isEmpty_iff.1 hempty, List.nil_append]
      exact dropBlanks_eq_self hlast
    · rfl
  refine ⟨(dropBlanks x.reverse).reverse, ?_⟩
  rw [trimChars, dropBlanks_eq_self hfront, List.reverse_append, hback, List.reverse_append,
    List.reverse_reverse]

end Around

end RecordProjection.Text
