import RecordProjection.Json.Printer
import RecordProjection.Json.Reader
import RecordProjection.Proofs.Entries
import RecordProjection.Proofs.Number.FixedDecimal

/-!
# What values are made of

The parts of a value that are neither lists nor mappings. A JSON text stands for a value of nothing,
truth values, numbers and texts, with a limit on the digits of its integers. The indented form is
refused for a decimal and for an integer beyond that limit only.

## Main definitions

* `Value.Built` : all parts of a value that are neither lists nor mappings are of a kind.
* `Value.isJsonScalar`, `Value.isReadScalar` : the kinds of which JSON values are made, and those of
  which a JSON value that is read from a text is made.
* `Value.isPrintableScalar`, `Value.isPrintedScalar` : the same with dates and moments.
* `Json.Inherited` : a property that holds of what is read when it holds of scalars.
-/
namespace RecordProjection

namespace Value

open Json

/-- All parts of a value that are neither lists nor mappings are of a kind. -/
inductive Built (isLeaf : Value → Bool) : Value → Prop
  | leaf {v : Value} (h : isLeaf v = true) : Built isLeaf v
  | list {items : List Value} (h : ∀ v ∈ items, Built isLeaf v) : Built isLeaf (.list items)
  | mapping {members : Members} (h : ∀ m ∈ members, Built isLeaf m.2) :
      Built isLeaf (.mapping members)

/-- Nothing, a truth value, a number that is no decimal, or a text. -/
def isJsonScalar : Value → Bool
  | null | bool _ | int _ | float _ | text _ => true
  | _ => false

/-- The same, or a date or a moment. -/
def isPrintableScalar : Value → Bool
  | date _ | moment _ => true
  | v => v.isJsonScalar

/-- A JSON scalar that texts stand for: no integer has more digits than the reader takes. -/
def isReadScalar (v : Value) : Bool := v.isJsonScalar && isWritable v

/-- The same, or a date or a moment. -/
def isPrintedScalar (v : Value) : Bool := v.isPrintableScalar && isPrinted v

theorem isPrintableScalar_of_isJsonScalar {v : Value} (h : v.isJsonScalar = true) :
    v.isPrintableScalar = true := by
  cases v with
  | date d => rfl
  | moment m => rfl
  | _ => exact h

theorem isJsonScalar_of_isReadScalar {v : Value} (h : v.isReadScalar = true) :
    v.isJsonScalar = true :=
  (Bool.and_eq_true_iff.1 h).1

theorem isPrintableScalar_of_isPrintedScalar {v : Value} (h : v.isPrintedScalar = true) :
    v.isPrintableScalar = true :=
  (Bool.and_eq_true_iff.1 h).1

theorem isPrintedScalar_of_isReadScalar {v : Value} (h : v.isReadScalar = true) :
    v.isPrintedScalar = true := by
  cases v with
  | date d => rfl
  | moment m => rfl
  | _ => exact h

namespace Built
variable {isLeaf : Value → Bool}

theorem mono {isLeaf' : Value → Bool} (hleaf : ∀ v, isLeaf v = true → isLeaf' v = true) {v : Value}
    (h : v.Built isLeaf) : v.Built isLeaf' := by
  induction h with
  | leaf h => exact .leaf (hleaf _ h)
  | list _ ih => exact .list ih
  | mapping _ ih => exact .mapping ih

variable (hlist : ∀ items, isLeaf (.list items) = false)
  (hmapping : ∀ members, isLeaf (.mapping members) = false)

include hlist in
/-- The items of a list are made of the same kind. -/
theorem of_mem_list {items : List Value} (h : (Value.list items).Built isLeaf) :
    ∀ v ∈ items, v.Built isLeaf := by
  cases h with
  | leaf h => simp [hlist] at h
  | list h => exact h

include hmapping in
/-- The values of a mapping are made of the same kind. -/
theorem of_mem_mapping {members : Members} (h : (Value.mapping members).Built isLeaf) :
    ∀ m ∈ members, m.2.Built isLeaf := by
  cases h with
  | leaf h => simp [hmapping] at h
  | mapping h => exact h

end Built

/-! ## Printing -/

theorem unprintableItem?_eq_none {items : List Value}
    (h : ∀ v ∈ items, v.unprintable? = none) : unprintableItem? items = none := by
  induction items with
  | nil => rfl
  | cons v items ih =>
    rw [unprintableItem?, h v List.mem_cons_self,
      ih fun u hu => h u (List.mem_cons_of_mem _ hu)]
    rfl

theorem unprintableMember?_eq_none {members : Members}
    (h : ∀ m ∈ members, m.2.unprintable? = none) : unprintableMember? members = none := by
  induction members with
  | nil => rfl
  | cons m members ih =>
    rw [unprintableMember?, h m List.mem_cons_self,
      ih fun u hu => h u (List.mem_cons_of_mem _ hu)]
    rfl

/-- A value without decimals and without integers beyond the limit has an indented form. -/
theorem unprintable?_of_built {v : Value} (h : v.Built isPrintedScalar) :
    v.unprintable? = none := by
  induction h with
  | @leaf v h =>
    have hprinted : isPrinted v = true := (Bool.and_eq_true_iff.1 h).2
    cases v with
    | list items => simp [isPrintedScalar, isPrintableScalar, isJsonScalar] at h
    | mapping members => simp [isPrintedScalar, isPrintableScalar, isJsonScalar] at h
    | _ => simp only [unprintable?, hprinted, if_true]
  | list _ ih => exact unprintableItem?_eq_none ih
  | mapping _ ih => exact unprintableMember?_eq_none ih

end Value

/-! ## Reading -/

namespace Json

open Value

theorem isReadScalar_of_readWord? {cs r : List Char} {v : Value}
    (h : readWord? cs = some (v, r)) : v.isReadScalar = true := by
  obtain ⟨⟨word, v'⟩, hw, h⟩ := List.exists_of_findSome?_eq_some h
  obtain ⟨r', -, h⟩ := Option.map_eq_some_iff.1 h
  obtain ⟨rfl, rfl⟩ := Prod.mk.inj h
  have hwords : ∀ w ∈ words, w.2.isReadScalar = true := by decide
  exact hwords _ hw

/-- A whole number is written with at least one digit, and with nothing else. -/
theorem isDigit_of_readWhole? {cs whole r : List Char} (h : readWhole? cs = some (whole, r)) :
    whole ≠ [] ∧ ∀ c ∈ whole, Text.isDigit c = true := by
  cases cs with
  | nil => cases h
  | cons c cs =>
    rw [readWhole?] at h
    split at h
    · obtain ⟨rfl, -⟩ := Prod.mk.inj (Option.some.inj h)
      exact ⟨by simp, List.forall_mem_singleton.2 rfl⟩
    · split at h
      · next hdigit =>
        obtain ⟨rfl, -⟩ := Prod.mk.inj (Option.some.inj h)
        refine ⟨by simp, List.forall_mem_cons.2 ⟨hdigit, ?_⟩⟩
        exact List.all_eq_true.1 List.all_takeWhile
      · cases h

/-- An integer that is read is within the limit on digits. -/
theorem isReadScalar_of_readMagnitude {negative : Bool} {cs r : List Char} {v : Value}
    (h : readMagnitude negative cs = .ok (v, r)) : v.isReadScalar = true := by
  rw [readMagnitude] at h
  split at h
  · cases h
  · next whole _ hwhole =>
    dsimp only at h
    split at h
    · split at h
      · cases h
      · next hshort =>
        obtain ⟨rfl, -⟩ := Prod.mk.inj (Except.ok.inj h)
        obtain ⟨hne, hdigits⟩ := isDigit_of_readWhole? hwhole
        have hlength : (Number.decimal (Number.ofDigits whole)).length ≤ maxDigits :=
          Nat.le_trans (Number.length_decimal_ofDigits_le hne hdigits) (Nat.not_lt.1 hshort)
        have hvalue : (if negative then -(Number.ofDigits whole : Int)
            else Number.ofDigits whole).natAbs = Number.ofDigits whole := by
          split <;> omega
        simp only [isReadScalar, isJsonScalar, isWritable, hvalue, hlength, decide_true,
          Bool.true_and]
    · obtain ⟨rfl, -⟩ := Prod.mk.inj (Except.ok.inj h)
      rfl

theorem isReadScalar_of_readScalar {cs r : List Char} {v : Value}
    (h : readScalar cs = .ok (v, r)) : v.isReadScalar = true := by
  rw [readScalar.eq_def] at h
  split at h
  · next found hword =>
    exact isReadScalar_of_readWord? (Except.ok.inj h ▸ hword)
  · split at h
    · split at h
      · obtain ⟨rfl, -⟩ := Prod.mk.inj (Except.ok.inj h)
        rfl
      · simp at h
    · exact isReadScalar_of_readMagnitude h
    · exact isReadScalar_of_readMagnitude h

/-- A property of scalars that goes over to the lists and mappings that are read. No key of such a
mapping is there twice. -/
structure Inherited (P : Value → Prop) : Prop where
  scalar : ∀ v, v.isReadScalar = true → P v
  list : ∀ items, (∀ v ∈ items, P v) → P (.list items)
  mapping : ∀ members, (Entries.keys members).Nodup → (∀ m ∈ members, P m.2) → P (.mapping members)

section Inherited
variable {P : Value → Prop}

/-- What an open list or mapping holds so far has a property, and no key is there twice. -/
inductive Frame.Holds (P : Value → Prop) : Frame → Prop
  | list {items : List Value} (h : ∀ v ∈ items, P v) : Frame.Holds P (.list items)
  | mapping {members : Members} {key : String} (distinct : (Entries.keys members).Nodup)
      (h : ∀ m ∈ members, P m.2) : Frame.Holds P (.mapping members key)

theorem Frame.Holds.items {items : List Value} (h : (Frame.list items).Holds P) :
    ∀ v ∈ items, P v := by
  cases h with
  | list h => exact h

theorem Frame.Holds.distinct {members : Members} {key : String}
    (h : (Frame.mapping members key).Holds P) : (Entries.keys members).Nodup := by
  cases h with
  | mapping distinct _ => exact distinct

theorem Frame.Holds.members {members : Members} {key : String}
    (h : (Frame.mapping members key).Holds P) : ∀ m ∈ members, P m.2 := by
  cases h with
  | mapping _ h => exact h

theorem forall_mem_insert {members : Members} {key : String} {v : Value}
    (h : ∀ m ∈ members, P m.2) (hv : P v) : ∀ m ∈ Entries.insert key v members, P m.2 := by
  intro m hm
  rcases Entries.mem_of_mem_insert hm with rfl | hm
  · exact hv
  · exact h m hm

mutual

/-- Inside frames that hold values with a property, what is read has the property. -/
theorem holds_of_readValue (hP : Inherited P) {stack : List Frame} {cs : List Char} {w : Value}
    (hstack : ∀ f ∈ stack, f.Holds P) (h : readValue stack cs = .ok w) : P w := by
  rw [readValue] at h
  split at h
  · simp at h
  · next c r hcs =>
    have hshort : r.length < cs.length := length_lt_of_dropSpaces hcs
    split at h
    · split at h
      · next r' hr =>
        have hshorter : r'.length < cs.length := Nat.lt_trans (length_lt_of_dropSpaces hr) hshort
        exact holds_of_resume hP hstack (hP.list [] (by simp)) h
      · exact holds_of_readValue hP (List.forall_mem_cons.2 ⟨.list (by simp), hstack⟩) h
    · split at h
      · split at h
        · next r' hr =>
          have hshorter : r'.length < cs.length := Nat.lt_trans (length_lt_of_dropSpaces hr) hshort
          exact holds_of_resume hP hstack (hP.mapping [] List.nodup_nil (by simp)) h
        · exact holds_of_readMember hP hstack (by simp [Entries.keys]) (by simp) h
      · split at h
        · next v r' hscalar =>
          have hshorter : r'.length < cs.length :=
            Nat.lt_of_lt_of_le (length_of_readScalar hscalar) (hcs ▸ length_dropSpaces_le cs)
          exact holds_of_resume hP hstack (hP.scalar v (isReadScalar_of_readScalar hscalar)) h
        · simp at h
termination_by cs.length
decreasing_by all_goals assumption

theorem holds_of_readMember (hP : Inherited P) {stack : List Frame} {members : Members}
    {cs : List Char} {w : Value} (hstack : ∀ f ∈ stack, f.Holds P)
    (hdistinct : (Entries.keys members).Nodup) (hmembers : ∀ m ∈ members, P m.2)
    (h : readMember stack members cs = .ok w) : P w := by
  rw [readMember.eq_def] at h
  split at h
  · next r hcs =>
    split at h
    · next key r' hkey =>
      split at h
      · next r'' hr' =>
        have hshort : r''.length < cs.length :=
          Nat.lt_trans (length_lt_of_dropSpaces hr')
            (Nat.lt_trans (length_of_readString? hkey) (length_lt_of_dropSpaces hcs))
        exact holds_of_readValue hP (List.forall_mem_cons.2 ⟨.mapping hdistinct hmembers, hstack⟩) h
      · simp at h
    · simp at h
  · simp at h
termination_by cs.length
decreasing_by all_goals assumption

theorem holds_of_resume (hP : Inherited P) {stack : List Frame} {v : Value} {cs : List Char}
    {w : Value} (hstack : ∀ f ∈ stack, f.Holds P) (hv : P v) (h : resume stack v cs = .ok w) :
    P w := by
  rw [resume.eq_def] at h
  split at h
  · exact Except.ok.inj h ▸ hv
  · next items stack r hcs =>
    have hshort : r.length < cs.length := length_lt_of_dropSpaces hcs
    obtain ⟨hframe, hstack⟩ := List.forall_mem_cons.1 hstack
    have hitems := List.forall_mem_cons.2 ⟨hv, hframe.items⟩
    exact holds_of_readValue hP (List.forall_mem_cons.2 ⟨.list hitems, hstack⟩) h
  · next items stack r hcs =>
    have hshort : r.length < cs.length := length_lt_of_dropSpaces hcs
    obtain ⟨hframe, hstack⟩ := List.forall_mem_cons.1 hstack
    have hitems := List.forall_mem_cons.2 ⟨hv, hframe.items⟩
    exact holds_of_resume hP hstack (hP.list _ fun u hu => hitems u (List.mem_reverse.1 hu)) h
  · next members key stack r hcs =>
    have hshort : r.length < cs.length := length_lt_of_dropSpaces hcs
    obtain ⟨hframe, hstack⟩ := List.forall_mem_cons.1 hstack
    exact holds_of_readMember hP hstack (Entries.nodup_keys_insert hframe.distinct)
      (forall_mem_insert hframe.members hv) h
  · next members key stack r hcs =>
    have hshort : r.length < cs.length := length_lt_of_dropSpaces hcs
    obtain ⟨hframe, hstack⟩ := List.forall_mem_cons.1 hstack
    exact holds_of_resume hP hstack (hP.mapping _ (Entries.nodup_keys_insert hframe.distinct)
      (forall_mem_insert hframe.members hv)) h
  · simp at h
termination_by cs.length
decreasing_by all_goals assumption

end

/-- What is inherited by the lists and mappings that are read holds of whatever a JSON text stands
for. -/
theorem Inherited.of_read (hP : Inherited P) {cs : List Char} {v : Value} (h : read cs = .ok v) :
    P v :=
  holds_of_readValue hP (by simp) h

end Inherited

/-- A JSON text stands for a value that is made of JSON scalars within the limit on digits. -/
theorem built_of_read {cs : List Char} {v : Value} (h : read cs = .ok v) :
    v.Built isReadScalar :=
  Inherited.of_read ⟨fun _ => .leaf, fun _ => .list, fun _ _ => .mapping⟩ h

end Json
end RecordProjection
