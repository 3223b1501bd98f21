import Mathlib.Data.List.Basic
import RecordProjection.Text.Joiner

/-!
# Joining and splitting

A path whose segments keep clear of the characters of a joiner is found again when its segments are
joined and the key is split.

## Main definitions

* `Joiner.join` : the key that the segments of a path are joined into.
* `Joiner.Avoids` : a segment has no character of a joiner.
-/
namespace RecordProjection.Joiner

open Text

/-- The key that the segments of a path are joined into. -/
def join (j : Joiner) (path : List String) : String := j.text.intercalate path

/-- A segment has no character of a joiner. -/
def Avoids (j : Joiner) (segment : String) : Prop := ∀ c ∈ segment.toList, c ∉ j.chars

theorem after?_chars_append (j : Joiner) (r : List Char) :
    after? j.chars (j.chars ++ r) = some r :=
  after?_eq_some_iff.2 rfl

theorem cut_chars_append (j : Joiner) (r : List Char) : j.cut (j.chars ++ r) = ([], some r) := by
  cases hj : j.chars with
  | nil => exact absurd hj j.chars_ne_nil
  | cons c cs =>
    have hafter := j.after?_chars_append r
    rw [hj, List.cons_append] at hafter
    rw [List.cons_append, cut, hj, hafter]

/-- A character that is not the joiner's goes before the cut. -/
theorem cut_cons {j : Joiner} {c : Char} (h : c ∉ j.chars) (cs : List Char) :
    j.cut (c :: cs) = (c :: (j.cut cs).1, (j.cut cs).2) := by
  have hafter : after? j.chars (c :: cs) = none := by
    cases hj : j.chars with
    | nil => exact absurd hj j.chars_ne_nil
    | cons d ds =>
      have hne : d ≠ c := by
        rintro rfl
        exact h (hj ▸ List.mem_cons_self)
      rw [after?, if_neg hne]
  rw [cut, hafter]

theorem cut_append {j : Joiner} {s : List Char} (h : ∀ c ∈ s, c ∉ j.chars) (r : List Char) :
    j.cut (s ++ r) = (s ++ (j.cut r).1, (j.cut r).2) := by
  induction s with
  | nil => rfl
  | cons c s ih =>
    obtain ⟨hc, hs⟩ := List.forall_mem_cons.1 h
    rw [List.cons_append, cut_cons hc, ih hs, List.cons_append]

theorem segments_of_cut_none {j : Joiner} {cs first : List Char} (h : j.cut cs = (first, none)) :
    j.segments cs = [first] := by
  rw [segments]
  split
  · next first' h' =>
    obtain ⟨rfl, -⟩ := Prod.mk.inj (h.symm.trans h')
    rfl
  · next first' r h' =>
    obtain ⟨-, hnone⟩ := Prod.mk.inj (h.symm.trans h')
    cases hnone

theorem segments_of_cut_some {j : Joiner} {cs first r : List Char}
    (h : j.cut cs = (first, some r)) : j.segments cs = first :: j.segments r := by
  rw [segments]
  split
  · next first' h' =>
    obtain ⟨-, hnone⟩ := Prod.mk.inj (h.symm.trans h')
    cases hnone
  · next first' r' h' =>
    obtain ⟨rfl, hr⟩ := Prod.mk.inj (h.symm.trans h')
    obtain rfl := Option.some.inj hr
    rfl

/-- Splitting what was joined gives the segments back. -/
theorem segments_intercalate {j : Joiner} {segs : List (List Char)} (hne : segs ≠ [])
    (h : ∀ s ∈ segs, ∀ c ∈ s, c ∉ j.chars) :
    j.segments (List.intercalate j.chars segs) = segs := by
  induction segs with
  | nil => exact absurd rfl hne
  | cons s segs ih =>
    obtain ⟨hs, hsegs⟩ := List.forall_mem_cons.1 h
    cases segs with
    | nil =>
      have hcut := cut_append hs []
      simp only [List.append_nil, cut] at hcut
      rw [List.intercalate_singleton, segments_of_cut_none hcut]
    | cons t segs =>
      have hcut := cut_append hs (j.chars ++ List.intercalate j.chars (t :: segs))
      rw [cut_chars_append, List.append_nil] at hcut
      rw [List.intercalate_cons_cons, List.append_assoc, segments_of_cut_some hcut,
        ih (List.cons_ne_nil t segs) hsegs]

/-- A path that keeps clear of the joiner is the path of its key. -/
theorem path_join {j : Joiner} {path : List String} (hne : path ≠ [])
    (h : ∀ key ∈ path, j.Avoids key) : j.path (j.join path) = path := by
  have hsegs : j.segments (j.join path).toList = path.map String.toList := by
    rw [join, String.toList_intercalate, text, String.toList_ofList]
    refine segments_intercalate (by simpa using hne) ?_
    intro s hs
    obtain ⟨key, hkey, rfl⟩ := List.mem_map.1 hs
    exact h key hkey
  rw [Joiner.path, hsegs, List.map_map]
  simp [Function.comp_def]

theorem fst_of_cut_none {j : Joiner} {cs first : List Char} (h : j.cut cs = (first, none)) :
    first = cs := by
  induction cs generalizing first with
  | nil => exact (Prod.mk.inj h).1.symm
  | cons c cs ih =>
    rw [cut] at h
    split at h
    · cases (Prod.mk.inj h).2
    · obtain ⟨rfl, hnone⟩ := Prod.mk.inj h
      have htail : (j.cut cs).1 = cs := ih (Prod.ext rfl hnone)
      rw [htail]

theorem eq_append_of_cut_some {j : Joiner} {cs first r : List Char}
    (h : j.cut cs = (first, some r)) : cs = first ++ j.chars ++ r := by
  induction cs generalizing first with
  | nil => cases (Prod.mk.inj h).2
  | cons c cs ih =>
    rw [cut] at h
    split at h
    · next r' hafter =>
      obtain ⟨rfl, hr⟩ := Prod.mk.inj h
      obtain rfl := Option.some.inj hr
      exact after?_eq_some_iff.1 hafter
    · obtain ⟨rfl, hr⟩ := Prod.mk.inj h
      have htail := ih (Prod.ext rfl hr)
      rw [List.cons_append, List.cons_append, ← htail]

/-- Joining what was split gives the text back. -/
theorem intercalate_segments (j : Joiner) (cs : List Char) :
    List.intercalate j.chars (j.segments cs) = cs := by
  induction cs using segments.induct j with
  | case1 cs first hcut =>
    rw [segments_of_cut_none hcut, List.intercalate_singleton, fst_of_cut_none hcut]
  | case2 cs first r hcut ih =>
    obtain ⟨s, segs, hsegs⟩ := List.exists_cons_of_ne_nil (j.segments_ne_nil r)
    rw [segments_of_cut_some hcut, hsegs, List.intercalate_cons_cons, ← hsegs, ih]
    exact (eq_append_of_cut_some hcut).symm

/-- A key is joined again from its path. -/
theorem join_path (j : Joiner) (key : String) : j.join (j.path key) = key := by
  have hchars : (j.join (j.path key)).toList = key.toList := by
    rw [join, String.toList_intercalate, text, String.toList_ofList, path, List.map_map]
    simpa [Function.comp_def] using j.intercalate_segments key.toList
  exact String.toList_injective hchars

/-- Different keys have different paths. -/
theorem path_injective (j : Joiner) : Function.Injective j.path := by
  intro key key' h
  rw [← j.join_path key, h, j.join_path]

theorem path_ne_nil (j : Joiner) (key : String) : j.path key ≠ [] := by
  rw [path, ne_eq, List.map_eq_nil_iff]
  exact j.segments_ne_nil key.toList

/-- A key without the joiner is a path of one segment. -/
theorem path_of_not_occursIn {j : Joiner} {key : String} (h : j.occursIn key = false) :
    j.path key = [key] := by
  have hnone : (j.cut key.toList).2 = none := by simpa [occursIn] using h
  have hcut : j.cut key.toList = ((j.cut key.toList).1, none) := Prod.ext rfl hnone
  rw [path, segments_of_cut_none hcut, fst_of_cut_none hcut]
  simp

/-! ## Segments without a joiner -/

/-- There is a cut just when the joiner stands somewhere in the text. -/
theorem isSome_cut_iff {j : Joiner} {cs : List Char} :
    (j.cut cs).2.isSome = true ↔ j.chars <:+: cs := by
  constructor
  · intro h
    obtain ⟨r, hr⟩ := Option.isSome_iff_exists.1 h
    have hcs := eq_append_of_cut_some (Prod.ext rfl hr : j.cut cs = ((j.cut cs).1, some r))
    exact ⟨(j.cut cs).1, r, hcs.symm⟩
  · rintro ⟨before, behind, rfl⟩
    induction before with
    | nil => rw [List.nil_append, cut_chars_append, Option.isSome_some]
    | cons c before ih =>
      rw [List.cons_append, List.cons_append, cut]
      split
      · rfl
      · exact ih

theorem occursIn_iff {j : Joiner} {key : String} :
    j.occursIn key = true ↔ j.chars <:+: key.toList :=
  isSome_cut_iff

/-- The text before the first joiner has none in it, also where a joiner begins in it and ends
behind it. -/
theorem not_infix_of_cut {j : Joiner} {cs first : List Char} {rest : Option (List Char)}
    (h : j.cut cs = (first, rest)) : ¬j.chars <:+: first := by
  rw [← isSome_cut_iff]
  induction cs generalizing first with
  | nil =>
    obtain ⟨rfl, -⟩ := Prod.mk.inj h
    simp [cut]
  | cons c cs ih =>
    have hcs : first <+: c :: cs := by
      cases rest with
      | none => exact fst_of_cut_none h ▸ List.prefix_rfl
      | some r => exact ⟨j.chars ++ r, by simp [eq_append_of_cut_some h]⟩
    rw [cut] at h
    split at h
    · obtain ⟨rfl, -⟩ := Prod.mk.inj h
      simp [cut]
    · next hafter =>
      obtain ⟨rfl, hrest⟩ := Prod.mk.inj h
      have hno : after? j.chars (c :: (j.cut cs).1) = none := by
        rw [Option.eq_none_iff_forall_ne_some]
        intro r hr
        obtain ⟨behind, hbehind⟩ := hcs
        rw [after?_eq_some_iff.1 hr, List.append_assoc] at hbehind
        rw [after?_eq_some_iff.2 hbehind.symm] at hafter
        cases hafter
      rw [cut, hno]
      exact ih (Prod.ext rfl hrest)

/-- No segment of a split text has the joiner in it. -/
theorem not_infix_of_mem_segments {j : Joiner} {cs s : List Char} (h : s ∈ j.segments cs) :
    ¬j.chars <:+: s := by
  induction cs using segments.induct j with
  | case1 cs first hcut =>
    rw [segments_of_cut_none hcut, List.mem_singleton] at h
    exact h ▸ not_infix_of_cut hcut
  | case2 cs first r hcut ih =>
    rw [segments_of_cut_some hcut, List.mem_cons] at h
    rcases h with rfl | h
    · exact not_infix_of_cut hcut
    · exact ih h

theorem not_infix_of_mem_path {j : Joiner} {key segment : String} (h : segment ∈ j.path key) :
    ¬j.chars <:+: segment.toList := by
  obtain ⟨s, hs, rfl⟩ := List.mem_map.1 h
  rw [String.toList_ofList]
  exact not_infix_of_mem_segments hs

end RecordProjection.Joiner
