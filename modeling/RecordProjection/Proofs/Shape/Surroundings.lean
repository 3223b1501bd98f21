import RecordProjection.Proofs.Shape.Balance
import RecordProjection.Proofs.Shape.Descent

/-!
# A list and the text around it

A list of fields can be read anywhere in a text. Reading stays inside the text and leaves a
balanced piece of it behind, up to the end or to a closing parenthesis, and this piece alone decides
what is read: with any other text around it the fields are the same.

## Main definitions

* `Cursor.into` : the place behind so many characters of a text.
-/
namespace RecordProjection

open Text Shape

namespace Cursor
variable {cs ds : List Char} {n : Nat} {t : Cursor}

/-- The place behind the first `n` characters of a text. -/
def into (cs : List Char) (n : Nat) : Cursor := ⟨n, cs.drop n⟩

/-- From a place in a text only places in this text are reached. -/
theorem Spans.of_into (h : (into cs n).Spans ds t) (hn : n ≤ cs.length) :
    t = into cs (n + ds.length) ∧ n + ds.length ≤ cs.length ∧
      cs.extract n (n + ds.length) = ds := by
  obtain ⟨position, rest⟩ := t
  obtain ⟨hrest, rfl⟩ : cs.drop n = ds ++ rest ∧ position = n + ds.length := h
  have hlength := congrArg List.length hrest
  rw [List.length_drop, List.length_append] at hlength
  refine ⟨?_, by omega, ?_⟩
  · rw [into, ← List.drop_drop, hrest, List.drop_left]
  · rw [List.extract_eq_take_drop, hrest, Nat.add_sub_cancel_left, List.take_left]

theorem Before.of_into (h : (into cs n).Before t) (hn : n ≤ cs.length) :
    ∃ m, t = into cs m ∧ n < m ∧ m ≤ cs.length := by
  obtain ⟨ds, hne, hspan⟩ := h
  obtain ⟨ht, hle, -⟩ := hspan.of_into hn
  have hpos := List.length_pos_iff.2 hne
  exact ⟨n + ds.length, ht, by omega, hle⟩

/-- The places around a piece of a text. -/
theorem spans_into (front ds behind : List Char) :
    (into (front ++ ds ++ behind) front.length).Spans ds
      (into (front ++ ds ++ behind) (front.length + ds.length)) := by
  refine ⟨?_, rfl⟩
  have hbehind : (front ++ ds ++ behind).drop (front.length + ds.length) = behind := by
    rw [← List.length_append, List.drop_left]
  rw [into, into, hbehind, List.append_assoc, List.drop_left]

end Cursor

namespace Shape

theorem atEnd_drop_iff {cs : List Char} {n : Nat} (hn : n ≤ cs.length) :
    AtEnd (cs.drop n) ↔ n = cs.length ∨ cs[n]? = some ')' := by
  rw [AtEnd, List.head?_drop]
  cases hc : cs[n]? with
  | none =>
    have hlength : cs.length ≤ n := List.getElem?_eq_none_iff.1 hc
    simp [Nat.le_antisymm hn hlength]
  | some c =>
    have hlt : n < cs.length := (List.getElem?_eq_some_iff.1 hc).1
    simp [Nat.ne_of_lt hlt]

/-- A list that is read somewhere in a text is derived by a piece of the text, which begins there
and ends at the end of the text or before a closing parenthesis. -/
theorem exists_piece_of_readOn {cs : List Char} {start : Nat} {fs : List FieldSpec} {t : Cursor}
    (h : readOn .firstField (.into cs start) = .ok (fs, t)) (hstart : start ≤ cs.length) :
    ∃ stop, t = .into cs stop ∧ start ≤ stop ∧ stop ≤ cs.length ∧
      (stop = cs.length ∨ cs[stop]? = some ')') ∧ DerivesList (cs.extract start stop) fs := by
  have hreads := readOn_eq_ok_iff.1 h
  obtain ⟨ds, hspan, hderives⟩ := hreads.derives
  obtain ⟨rfl, hle, hpiece⟩ := hspan.of_into hstart
  have hend := (atEnd_drop_iff hle).1 hreads.atEnd
  refine ⟨start + ds.length, rfl, Nat.le_add_right _ _, hle, hend, ?_⟩
  rw [hpiece]
  exact Awaiting.derives_firstField_iff.1 hderives

/-- What derives a list is read as this list in any text where an end follows. -/
theorem readOn_of_derivesList {ds : List Char} {fs : List FieldSpec} (h : DerivesList ds fs)
    (front : List Char) {behind : List Char} (hbehind : AtEnd behind) :
    readOn .firstField (.into (front ++ ds ++ behind) front.length) =
      .ok (fs, .into (front ++ ds ++ behind) (front.length + ds.length)) := by
  refine readOn_eq_ok_iff.2 (h.reads (Cursor.spans_into front ds behind) ?_)
  rwa [Cursor.into, ← List.length_append, List.drop_left]

/-- The contract of reading at a place in a text. A list ends further on in the text, at its end or
before a closing parenthesis. What was passed over is balanced, and it alone decides the fields:
they are the same with any text in front of it, and with any behind it that ends a list. A round
that goes on and a field end strictly behind the place where they begin, and the lists that a field
has read begin strictly behind it. So the descent ends. No more rounds lie within one another than
there are characters left, and one more, and what is put in below them makes no difference. -/
theorem descent_is_forward_and_local (cs : List Char) (start : Nat) (hstart : start ≤ cs.length) :
    (∀ fs t, readOn .firstField (.into cs start) = .ok (fs, t) →
      ∃ stop, t = .into cs stop ∧ start ≤ stop ∧ stop ≤ cs.length ∧
        (stop = cs.length ∨ cs[stop]? = some ')') ∧
        Balanced (cs.extract start stop) ∧
        ∀ front behind, AtEnd behind →
          readOn .firstField (.into (front ++ cs.extract start stop ++ behind) front.length) =
            .ok (fs, .into (front ++ cs.extract start stop ++ behind)
              (front.length + (stop - start)))) ∧
    (∀ a fs b t, roundBy readOn a (.into cs start) = .ok (.onwards fs b t) →
      ∃ next, t = .into cs next ∧ start < next ∧ next ≤ cs.length) ∧
    (∀ f t, fieldBy readOn (.into cs start) = .ok (f, t) →
      ∃ next, t = .into cs next ∧ start < next ∧ next ≤ cs.length) ∧
    (∀ lists lists' : ListReader,
      (∀ next, start < next → next ≤ cs.length →
        lists .firstField (.into cs next) = lists' .firstField (.into cs next)) →
      fieldBy lists (.into cs start) = fieldBy lists' (.into cs start)) ∧
    descend readOn = readOn ∧
    ∀ (lists : ListReader) (n : Nat) (a : Awaiting), cs.length - start < n →
      descend^[n] lists a (.into cs start) = readOn a (.into cs start) := by
  refine ⟨?_, ?_, ?_, ?_, descend_readOn, ?_⟩
  · intro fs t h
    obtain ⟨stop, ht, hle, hstop, hend, hpiece⟩ := exists_piece_of_readOn h hstart
    refine ⟨stop, ht, hle, hstop, hend, hpiece.balanced, ?_⟩
    intro front behind hbehind
    have hlength : (cs.extract start stop).length = stop - start := by
      rw [List.extract_eq_take_drop, List.length_take, List.length_drop]
      omega
    rw [← hlength]
    exact readOn_of_derivesList hpiece front hbehind
  · intro a fs b t h
    exact (before_of_roundBy h).of_into hstart
  · intro f t h
    exact (before_of_fieldBy h).of_into hstart
  · intro lists lists' h
    refine fieldBy_congr fun t ht => ?_
    obtain ⟨next, rfl, hlt, hle⟩ := ht.of_into hstart
    exact h next hlt hle
  · intro lists n a hn
    refine iterate_descend_eq lists a (.into cs start) ?_
    rwa [Cursor.into, List.length_drop]

/-- A list in parentheses is read as it is elsewhere. -/
theorem descent_inside_parentheses :
    2 ≤ "k(* , *()),".toList.length ∧
    readOn .firstField (.into "k(* , *()),".toList 2) =
      .ok ([.all, .wildcard "*" (some [])], .into "k(* , *()),".toList 9) ∧
    Balanced "* , *()".toList ∧
    readOn .firstField (.into ") * , *()".toList 2) =
      .ok ([.all, .wildcard "*" (some [])], .into ") * , *()".toList 9) ∧
    ∀ lists : ListReader, descend^[10] lists .firstField (.into "k(* , *()),".toList 2) =
      .ok ([.all, .wildcard "*" (some [])], .into "k(* , *()),".toList 9) := by
  have hreads : Reads .firstField (.into "k(* , *()),".toList 2) [.all, .wildcard "*" (some [])]
      (.into "k(* , *()),".toList 9) := by
    have hend (r : List Char) : AtEnd (')' :: r) := by simp [AtEnd]
    have hfirst : readHead (Cursor.into "k(* , *()),".toList 2).skipBlanks =
        .ok (.wildcard, ⟨3, " , *()),".toList⟩) := rfl
    have hsecond : readHead (Cursor.mk 5 " *()),".toList).skipBlanks =
        .ok (.wildcard, ⟨7, "()),".toList⟩) := rfl
    have hinner : Reads .firstField ⟨8, ")),".toList⟩ [] ⟨8, ")),".toList⟩ :=
      .stop (by decide) (hend _)
    have hbehind : Reads .separator ⟨9, "),".toList⟩ [] ⟨9, "),".toList⟩ :=
      .stop (by decide) (hend _)
    refine .bare hfirst ?_ (.comma rfl (.listed hsecond rfl hinner rfl hbehind))
    intro r hr
    cases hr
  have hlist := readOn_eq_ok_iff.2 hreads
  obtain ⟨hcontract, -, -, -, -, hrounds⟩ :=
    descent_is_forward_and_local "k(* , *()),".toList 2 (by decide)
  obtain ⟨stop, ht, -, -, -, hbalanced, hsurroundings⟩ := hcontract _ _ hlist
  obtain rfl : 9 = stop := congrArg Cursor.position ht
  refine ⟨by decide, hlist, hbalanced, hsurroundings [')', ' '] [] (by simp [AtEnd]), ?_⟩
  intro lists
  rw [hrounds lists 10 .firstField (by decide)]
  exact hlist

end Shape
end RecordProjection
