import RecordProjection.Text.Front

/-!
# Joiners

A joiner is the non-empty text that joins the segments of a path into one key. Splitting reads a
key from the left and takes each occurrence of the joiner that begins after the last one ended.
-/
namespace RecordProjection

/-- A non-empty text between the segments of a joined key. -/
structure Joiner where
  chars : List Char
  chars_ne_nil : chars ≠ []
  deriving DecidableEq

namespace Joiner

open Text

/-- The joiner with this text, if the text is not empty. -/
def of? (s : String) : Option Joiner :=
  if h : s.toList ≠ [] then some ⟨s.toList, h⟩ else none

/-- The text of a joiner. -/
def text (j : Joiner) : String := String.ofList j.chars

theorem length_lt_of_after? {j : Joiner} {cs r : List Char} (h : after? j.chars cs = some r) :
    r.length < cs.length := by
  have := List.length_pos_iff.2 j.chars_ne_nil
  rw [after?_eq_some_iff.1 h, List.length_append]
  omega

/-- The text before the first joiner, and the text behind it if there is a joiner at all. -/
def cut (j : Joiner) : List Char → List Char × Option (List Char)
  | [] => ([], none)
  | c :: cs =>
    match after? j.chars (c :: cs) with
    | some r => ([], some r)
    | none => let (first, behind) := cut j cs; (c :: first, behind)

theorem length_lt_of_cut {j : Joiner} {cs first r : List Char} (h : cut j cs = (first, some r)) :
    r.length < cs.length := by
  induction cs generalizing first with
  | nil => simp [cut] at h
  | cons c cs ih =>
    rw [cut] at h
    split at h
    · next r' h' =>
      obtain ⟨-, rfl⟩ : _ ∧ r' = r := by simpa using h
      exact length_lt_of_after? h'
    · have := ih (Prod.ext rfl (by simpa using congrArg Prod.snd h) : cut j cs = (_, some r))
      simp only [List.length_cons]
      omega

/-- A key holds the joiner somewhere. -/
def occursIn (j : Joiner) (s : String) : Bool := (j.cut s.toList).2.isSome

/-- The segments of a text: the pieces before, between and behind its joiners. -/
def segments (j : Joiner) (cs : List Char) : List (List Char) :=
  match _h : cut j cs with
  | (first, none) => [first]
  | (first, some r) => first :: segments j r
termination_by cs.length
decreasing_by exact length_lt_of_cut ‹_›

theorem segments_ne_nil (j : Joiner) (cs : List Char) : j.segments cs ≠ [] := by
  rw [segments]
  split <;> simp

/-- The path that a joined key stands for. -/
def path (j : Joiner) (key : String) : List String :=
  (j.segments key.toList).map String.ofList

end Joiner
end RecordProjection
