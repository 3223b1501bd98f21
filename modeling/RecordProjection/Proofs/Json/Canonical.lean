import Mathlib.Data.List.Basic
import RecordProjection.Proofs.Json.Quotation

/-!
# The canonical form determines the value

The canonical form of a value is the plain text of the value whose members are sorted at every
level. Read from the left, the plain text of a value tells the value and the place where it ends,
as long as no digit follows; so two values have the same canonical form just when they are the
same value up to the order of members.

## Main definitions

* `Value.sorted` : the value with its members sorted at every level.
* `Value.orderedChars` : the text of a value with its members in the order they have.
* `Value.IsJson` : the values that JSON has a form of its own for, floats aside.
-/
namespace RecordProjection

open Json

namespace Value

mutual

/-- The value with its members sorted at every level. -/
def sorted : Value → Value
  | list items => list (sortedItems items)
  | mapping members => mapping (sortMembers (sortedMembers members))
  | v => v

/-- Items with their members sorted. -/
def sortedItems : List Value → List Value
  | [] => []
  | v :: vs => sorted v :: sortedItems vs

/-- Members in their order, with the members of their values sorted. -/
def sortedMembers : List (String × Value) → List (String × Value)
  | [] => []
  | (key, v) :: ms => (key, sorted v) :: sortedMembers ms

end

mutual

/-- The text of a value with its members in the order they have. -/
def orderedChars : Value → List Char
  | list items => '[' :: List.intercalate [','] (orderedItems items) ++ [']']
  | mapping members => '{' :: List.intercalate [','] (orderedMembers members) ++ ['}']
  | v => scalarText v

/-- The texts of items. -/
def orderedItems : List Value → List (List Char)
  | [] => []
  | v :: vs => orderedChars v :: orderedItems vs

/-- The texts of members. -/
def orderedMembers : List (String × Value) → List (List Char)
  | [] => []
  | (key, v) :: ms => (quotedChars key.toList ++ ':' :: orderedChars v) :: orderedMembers ms

end

/-- The text of a member. -/
def memberChars (m : String × Value) : List Char :=
  quotedChars m.1.toList ++ ':' :: m.2.orderedChars

theorem orderedItems_eq_map (items : List Value) :
    orderedItems items = items.map orderedChars := by
  induction items with
  | nil => rfl
  | cons v vs ih => rw [orderedItems, ih, List.map_cons]

theorem orderedMembers_eq_map (members : List (String × Value)) :
    orderedMembers members = members.map memberChars := by
  induction members with
  | nil => rfl
  | cons m ms ih => rw [orderedMembers, ih, List.map_cons, memberChars]

theorem sortMembers_map {α β : Type} (f : α → β) (members : List (String × α)) :
    sortMembers (members.map fun m => (m.1, f m.2)) =
      (sortMembers members).map fun m => (m.1, f m.2) := by
  refine (List.map_mergeSort ?_).symm
  intro a _ b _
  rfl

mutual

/-- The canonical form is the text of the sorted value. -/
theorem canonicalChars_eq : ∀ v : Value, v.canonicalChars = v.sorted.orderedChars
  | .list items => by
    rw [canonicalChars, sorted, orderedChars, canonicalItems_eq]
  | .mapping members => by
    rw [canonicalChars, sorted, orderedChars, canonicalMembers_eq, sortMembers_map,
      orderedMembers_eq_map, List.map_map]
    rfl
  | .null | .bool _ | .int _ | .float _ | .decimal _ | .text _ | .date _ | .moment _ => rfl

theorem canonicalItems_eq : ∀ items : List Value,
    canonicalItems items = orderedItems (sortedItems items)
  | [] => rfl
  | v :: vs => by
    rw [canonicalItems, sortedItems, orderedItems, canonicalChars_eq v, canonicalItems_eq vs]

theorem canonicalMembers_eq : ∀ members : List (String × Value),
    canonicalMembers members = (sortedMembers members).map fun m => (m.1, m.2.orderedChars)
  | [] => rfl
  | (key, v) :: ms => by
    rw [canonicalMembers, sortedMembers, List.map_cons, canonicalChars_eq v, canonicalMembers_eq ms]

end

/-! ## JSON values -/

/-- The values that JSON has a form of its own for, floats aside. -/
inductive IsJson : Value → Prop
  | null : IsJson .null
  | bool (b : Bool) : IsJson (.bool b)
  | int (n : Int) : IsJson (.int n)
  | text (s : String) : IsJson (.text s)
  | list {items : List Value} (h : ∀ v ∈ items, IsJson v) : IsJson (.list items)
  | mapping {members : List (String × Value)} (h : ∀ m ∈ members, IsJson m.2) :
      IsJson (.mapping members)

/-- The kind of value whose text begins with a character. -/
def kindAt? (c : Char) : Option String :=
  if c = 'n' then some "null"
  else if c = 't' ∨ c = 'f' then some "bool"
  else if c = '-' ∨ c.isDigit then some "int"
  else if c = '"' then some "str"
  else if c = '[' then some "list"
  else if c = '{' then some "dict"
  else none

theorem decimal_eq_cons (n : Nat) : ∃ c r, Number.decimal n = c :: r ∧ c.isDigit := by
  cases hd : Number.decimal n with
  | nil => exact absurd hd Nat.toDigits_ne_nil
  | cons c r =>
    exact ⟨c, r, rfl,
      Nat.isDigit_of_mem_toDigits (by decide) (by decide) (hd ▸ List.mem_cons_self)⟩

theorem integerText_kind (n : Int) :
    ∃ c r, Number.integerText n = c :: r ∧ kindAt? c = some "int" := by
  rw [Number.integerText]
  by_cases hn : n < 0
  · rw [if_pos hn]
    exact ⟨'-', _, rfl, rfl⟩
  · obtain ⟨c, r, hd, hdigit⟩ := decimal_eq_cons n.natAbs
    refine ⟨c, r, by rw [if_neg hn, hd], ?_⟩
    rw [kindAt?, if_neg, if_neg, if_pos (.inr hdigit)]
    · rintro (rfl | rfl) <;> exact absurd hdigit (by decide)
    · rintro rfl
      exact absurd hdigit (by decide)

/-- The first character of its text tells the kind of a value. -/
theorem IsJson.kind {v : Value} (h : v.IsJson) :
    ∃ c r, v.orderedChars = c :: r ∧ kindAt? c = some v.kindName := by
  cases h with
  | null => exact ⟨_, _, rfl, rfl⟩
  | bool b => cases b <;> exact ⟨_, _, rfl, rfl⟩
  | int n => exact integerText_kind n
  | text s => exact ⟨_, _, rfl, rfl⟩
  | list _ => exact ⟨_, _, rfl, rfl⟩
  | mapping _ => exact ⟨_, _, rfl, rfl⟩

/-! ## Texts that tell where they end -/

/-- No digit stands at the front of a text, so a number that ends there is complete. -/
def EndsNumber (x : List Char) : Prop := ∀ c ∈ x.head?, c.isDigit = false

@[simp] theorem endsNumber_cons {c : Char} {x : List Char} :
    EndsNumber (c :: x) ↔ c.isDigit = false := by
  simp [EndsNumber]

/-- The texts of two things tell them apart, and tell where they end. -/
def Separable {α : Type} (code : α → List Char) (a b : α) : Prop :=
  ∀ x y, EndsNumber x → EndsNumber y → code a ++ x = code b ++ y → a = b ∧ x = y

theorem takeWhile_decimal_append (n : Nat) {x : List Char} (hx : EndsNumber x) :
    (Number.decimal n ++ x).takeWhile Char.isDigit = Number.decimal n := by
  have hdigits : ∀ c ∈ Number.decimal n, c.isDigit := fun c hc =>
    Nat.isDigit_of_mem_toDigits (by decide) (by decide) hc
  rw [List.takeWhile_append_of_pos hdigits]
  cases x with
  | nil => simp
  | cons c x => simp [endsNumber_cons.1 hx]

theorem decimal_append_inj {n m : Nat} {x y : List Char} (hx : EndsNumber x) (hy : EndsNumber y)
    (h : Number.decimal n ++ x = Number.decimal m ++ y) : n = m ∧ x = y := by
  have hdigits : Number.decimal n = Number.decimal m := by
    rw [← takeWhile_decimal_append n hx, h, takeWhile_decimal_append m hy]
  refine ⟨?_, ?_⟩
  · have := congrArg (Nat.ofDigitChars 10 · 0) hdigits
    simpa [Number.decimal] using this
  · rw [hdigits] at h
    exact List.append_cancel_left h

theorem minus_ne_decimal_append (n : Nat) (x y : List Char) :
    '-' :: x ≠ Number.decimal n ++ y := by
  intro h
  obtain ⟨c, r, hd, hdigit⟩ := decimal_eq_cons n
  rw [hd, List.cons_append, List.cons.injEq] at h
  rw [← h.1] at hdigit
  exact absurd hdigit (by decide)

theorem separable_integerText (n m : Int) : Separable Number.integerText n m := by
  intro x y hx hy h
  rw [Number.integerText, Number.integerText] at h
  by_cases hn : n < 0 <;> by_cases hm : m < 0
  · rw [if_pos hn, if_pos hm, List.cons_append, List.cons_append, List.cons.injEq] at h
    obtain ⟨habs, hxy⟩ := decimal_append_inj hx hy h.2
    exact ⟨by omega, hxy⟩
  · rw [if_pos hn, if_neg hm] at h
    exact absurd h (minus_ne_decimal_append _ _ _)
  · rw [if_neg hn, if_pos hm] at h
    exact absurd h.symm (minus_ne_decimal_append _ _ _)
  · rw [if_neg hn, if_neg hm] at h
    obtain ⟨habs, hxy⟩ := decimal_append_inj hx hy h
    exact ⟨by omega, hxy⟩

/-! ## Items with commas between them -/

section Separated
variable {α : Type} {code : α → List Char} {close : Char} {as bs : List α} {x y : List Char}

theorem intercalate_cons (a : α) (as : List α) :
    List.intercalate [','] ((a :: as).map code) =
      code a ++ as.flatMap fun a => ',' :: code a := by
  induction as generalizing a with
  | nil => simp
  | cons b bs ih =>
    have hstep : List.intercalate [','] ((a :: b :: bs).map code) =
        code a ++ ',' :: List.intercalate [','] ((b :: bs).map code) := by
      simp
    rw [hstep, ih b]
    simp

theorem endsNumber_behind (hclose : close.isDigit = false) :
    EndsNumber ((as.flatMap fun a => ',' :: code a) ++ close :: x) := by
  cases as with
  | nil => simpa using hclose
  | cons a as => simp

/-- Behind the first item: each item has its comma, and the closing character is no comma. -/
theorem behind_append_inj (hclose : close.isDigit = false) (hcomma : close ≠ ',')
    (hsep : ∀ a ∈ as, ∀ b ∈ bs, Separable code a b)
    (h : (as.flatMap fun a => ',' :: code a) ++ close :: x =
      (bs.flatMap fun b => ',' :: code b) ++ close :: y) : as = bs ∧ x = y := by
  induction as generalizing bs with
  | nil =>
    cases bs with
    | nil => simpa using h
    | cons b bs => simp [hcomma] at h
  | cons a as ih =>
    cases bs with
    | nil => simp [Ne.symm hcomma] at h
    | cons b bs =>
      simp only [List.flatMap_cons, List.cons_append, List.append_assoc, List.cons.injEq,
        true_and] at h
      obtain ⟨hab, hrest⟩ := hsep a List.mem_cons_self b List.mem_cons_self _ _
        (endsNumber_behind hclose) (endsNumber_behind hclose) h
      obtain ⟨hrests, hxy⟩ := ih (fun a ha b hb =>
        hsep a (List.mem_cons_of_mem _ ha) b (List.mem_cons_of_mem _ hb)) hrest
      exact ⟨by rw [hab, hrests], hxy⟩

/-- Items with commas between them, up to a closing character that none of them begins with. -/
theorem intercalate_append_inj (hclose : close.isDigit = false) (hcomma : close ≠ ',')
    (hsep : ∀ a ∈ as, ∀ b ∈ bs, Separable code a b)
    (has : ∀ a ∈ as, ∃ c r, code a = c :: r ∧ c ≠ close)
    (hbs : ∀ b ∈ bs, ∃ c r, code b = c :: r ∧ c ≠ close)
    (h : List.intercalate [','] (as.map code) ++ close :: x =
      List.intercalate [','] (bs.map code) ++ close :: y) : as = bs ∧ x = y := by
  cases as with
  | nil =>
    cases bs with
    | nil => simpa using h
    | cons b bs =>
      obtain ⟨c, r, hc, hne⟩ := hbs b (by simp)
      rw [intercalate_cons, hc] at h
      simp [Ne.symm hne] at h
  | cons a as =>
    cases bs with
    | nil =>
      obtain ⟨c, r, hc, hne⟩ := has a (by simp)
      rw [intercalate_cons, hc] at h
      simp [hne] at h
    | cons b bs =>
      rw [intercalate_cons, intercalate_cons, List.append_assoc, List.append_assoc] at h
      obtain ⟨hab, hrest⟩ := hsep a List.mem_cons_self b List.mem_cons_self _ _
        (endsNumber_behind hclose) (endsNumber_behind hclose) h
      obtain ⟨hrests, hxy⟩ := behind_append_inj hclose hcomma (fun a ha b hb =>
        hsep a (List.mem_cons_of_mem _ ha) b (List.mem_cons_of_mem _ hb)) hrest
      exact ⟨by rw [hab, hrests], hxy⟩

end Separated

/-! ## The text of a value -/

theorem separable_memberChars {m n : String × Value}
    (h : Separable orderedChars m.2 n.2) : Separable memberChars m n := by
  intro x y hx hy heq
  rw [memberChars, memberChars, List.append_assoc, List.append_assoc, List.cons_append,
    List.cons_append] at heq
  obtain ⟨hkey, heq⟩ := quotedChars_append_inj heq
  obtain ⟨hvalue, hxy⟩ := h x y hx hy (List.cons.inj heq).2
  exact ⟨Prod.ext (String.toList_inj.1 hkey) hvalue, hxy⟩

/-- The text of a member begins with a quotation mark. -/
theorem memberChars_start (m : String × Value) :
    ∃ c r, memberChars m = c :: r ∧ c ≠ '}' :=
  ⟨'"', _, rfl, by decide⟩

theorem IsJson.start {v : Value} (h : v.IsJson) : ∃ c r, v.orderedChars = c :: r ∧ c ≠ ']' := by
  obtain ⟨c, r, hc, hkind⟩ := h.kind
  refine ⟨c, r, hc, ?_⟩
  rintro rfl
  exact absurd hkind (by simp [kindAt?])

theorem IsJson.kindName_eq {v w : Value} (hv : v.IsJson) (hw : w.IsJson) {x y : List Char}
    (h : v.orderedChars ++ x = w.orderedChars ++ y) : v.kindName = w.kindName := by
  obtain ⟨c, r, hc, hkind⟩ := hv.kind
  obtain ⟨d, s, hd, hkind'⟩ := hw.kind
  rw [hc, hd, List.cons_append, List.cons_append, List.cons.injEq] at h
  rw [h.1, hkind'] at hkind
  exact (Option.some.inj hkind).symm

/-- The text of a value tells the value and the place where it ends. -/
theorem IsJson.separable {v : Value} (hv : v.IsJson) :
    ∀ w : Value, w.IsJson → Separable orderedChars v w := by
  induction hv with
  | null =>
    intro w hw x y _ _ h
    have hkind := IsJson.null.kindName_eq hw h
    cases hw with
    | null => exact ⟨rfl, List.append_cancel_left h⟩
    | _ => exact absurd hkind (by simp [kindName])
  | bool b =>
    intro w hw x y _ _ h
    have hkind := (IsJson.bool b).kindName_eq hw h
    cases hw with
    | bool b' =>
      cases b <;> cases b'
      · exact ⟨rfl, List.append_cancel_left h⟩
      · simp [orderedChars, scalarText] at h
      · simp [orderedChars, scalarText] at h
      · exact ⟨rfl, List.append_cancel_left h⟩
    | _ => exact absurd hkind (by simp [kindName])
  | int n =>
    intro w hw x y hx hy h
    have hkind := (IsJson.int n).kindName_eq hw h
    cases hw with
    | int m =>
      obtain ⟨hnm, hxy⟩ := separable_integerText n m x y hx hy h
      exact ⟨congrArg Value.int hnm, hxy⟩
    | _ => exact absurd hkind (by simp [kindName])
  | text s =>
    intro w hw x y hx hy h
    have hkind := (IsJson.text s).kindName_eq hw h
    cases hw with
    | text t =>
      obtain ⟨hst, hxy⟩ := quotedChars_append_inj h
      exact ⟨congrArg Value.text (String.toList_inj.1 hst), hxy⟩
    | _ => exact absurd hkind (by simp [kindName])
  | @list items hitems ih =>
    intro w hw x y _ _ h
    have hkind := (IsJson.list hitems).kindName_eq hw h
    cases hw with
    | @list items' hitems' =>
      simp only [orderedChars, orderedItems_eq_map, List.cons_append, List.append_assoc,
        List.nil_append, List.cons.injEq, true_and] at h
      obtain ⟨hsame, hxy⟩ := intercalate_append_inj (by decide) (by decide)
        (fun a ha b hb => ih a ha b (hitems' b hb)) (fun a ha => (hitems a ha).start)
        (fun b hb => (hitems' b hb).start) h
      exact ⟨congrArg Value.list hsame, hxy⟩
    | _ => exact absurd hkind (by simp [kindName])
  | @mapping members hmembers ih =>
    intro w hw x y _ _ h
    have hkind := (IsJson.mapping hmembers).kindName_eq hw h
    cases hw with
    | @mapping members' hmembers' =>
      simp only [orderedChars, orderedMembers_eq_map, List.cons_append, List.append_assoc,
        List.nil_append, List.cons.injEq, true_and] at h
      obtain ⟨hsame, hxy⟩ := intercalate_append_inj (by decide) (by decide)
        (fun a ha b hb => separable_memberChars (ih a ha b.2 (hmembers' b hb)))
        (fun a _ => memberChars_start a) (fun b _ => memberChars_start b) h
      exact ⟨congrArg Value.mapping hsame, hxy⟩
    | _ => exact absurd hkind (by simp [kindName])

/-- Values of the same text are the same. -/
theorem IsJson.orderedChars_inj {v w : Value} (hv : v.IsJson) (hw : w.IsJson)
    (h : v.orderedChars = w.orderedChars) : v = w := by
  have hnil : EndsNumber [] := by simp [EndsNumber]
  exact (hv.separable w hw [] [] hnil hnil (by rw [h])).1

end Value
end RecordProjection
