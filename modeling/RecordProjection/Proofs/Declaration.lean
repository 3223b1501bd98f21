import RecordProjection.Declaration
import RecordProjection.Proofs.Entries
import RecordProjection.Proofs.Results

/-!
# What declarations say

When a declaration is read without a fault, and what its members are then: a member that has to be
there is, one that may be left out stands for its own value when it is, and there are no others. A
flag is a truth value, one of the numbers nought and one, or a word for yes or no.

## Main definitions

* `Value.MeansFlag` : the values that stand for a flag.
-/
namespace RecordProjection

/-! ## Parts -/

namespace Checked
variable {α β : Type}

theorem both_eq_ok_iff {a : Checked α} {b : Checked β} {p : α × β} :
    a.both b = .ok p ↔ a = .ok p.1 ∧ b = .ok p.2 := by
  obtain ⟨x, y⟩ := p
  cases a <;> cases b <;> simp [both]

theorem under_eq_ok_iff {step : Step} {c : Checked α} {a : α} :
    c.under step = .ok a ↔ c = .ok a := by
  cases c <;> simp [under]

theorem fault_ne_ok {kind : FaultKind} {a : α} : (fault kind : Checked α) ≠ .ok a := by
  simp [fault]

end Checked

namespace Declaration
variable {α : Type} {members : Members} {key : String} {read : Value → Checked α} {a : α}

/-! ## Members -/

theorem required_eq_ok_iff : required members key read = .ok a ↔
    ∃ v, Entries.get? key members = some v ∧ read v = .ok a := by
  rw [required, Checked.under_eq_ok_iff]
  cases Entries.get? key members with
  | none => simp [Checked.fault_ne_ok]
  | some v => simp

theorem optional_eq_ok_iff {default : α} : optional members key default read = .ok a ↔
    (Entries.get? key members = none ∧ default = a) ∨
      ∃ v, Entries.get? key members = some v ∧ read v = .ok a := by
  rw [optional, Checked.under_eq_ok_iff]
  cases Entries.get? key members with
  | none => simp
  | some v => simp

theorem onlyMembers_eq_ok_iff {keys : List String} {u : Unit} :
    onlyMembers members keys = .ok u ↔ ∀ key ∈ Entries.keys members, key ∈ keys := by
  have hnone : (Entries.keys members).filter (fun key => !keys.contains key) = [] ↔
      ∀ key ∈ Entries.keys members, key ∈ keys := by
    simp [List.filter_eq_nil_iff]
  rw [← hnone, onlyMembers]
  cases (Entries.keys members).filter (fun key => !keys.contains key) <;> simp

/-- There are no other members when these are the keys of a mapping that has all the members. -/
theorem onlyMembers_of_absent {members' : Members} {keys : List String}
    (hkeys : ∀ key ∈ Entries.keys members', key ∈ keys)
    (habsent : ∀ key, Entries.get? key members' = none → Entries.get? key members = none) :
    onlyMembers members keys = .ok () := by
  rw [onlyMembers_eq_ok_iff]
  intro key hkey
  by_contra hno
  have hnone : Entries.get? key members' = none :=
    Entries.get?_eq_none_iff.2 fun hmem => hno (hkeys key hmem)
  exact Entries.get?_eq_none_iff.1 (habsent key hnone) hkey

/-! ## Kinds of values -/

theorem text_eq_ok_iff {v : Value} {s : String} : text v = .ok s ↔ v = .text s := by
  cases v with
  | text t => simp [text]
  | _ => simp [text, Checked.fault]

theorem optionalText_eq_ok_iff {v : Value} {s? : Option String} : optionalText v = .ok s? ↔
    (v = .null ∧ s? = none) ∨ ∃ s, v = .text s ∧ s? = some s := by
  cases v with
  | null => simp [optionalText, eq_comm]
  | text t => simp [optionalText, text, Except.map, eq_comm]
  | _ => simp [optionalText, text, Checked.fault, Except.map]

end Declaration

open Declaration

/-- The values that stand for a flag. -/
inductive Value.MeansFlag : Value → Bool → Prop
  | bool (b : Bool) : Value.MeansFlag (.bool b) b
  | int (b : Bool) : Value.MeansFlag (.int b.toInt) b
  | float {x : Binary64} {b : Bool} (h : x.toInt? = some b.toInt) : Value.MeansFlag (.float x) b
  | decimal {d : Decimal} {b : Bool} (h : d.toBinary64.toInt? = some b.toInt) :
      Value.MeansFlag (.decimal d) b
  | yes {s : String} (h : s.map Char.toLower ∈ yesWords) : Value.MeansFlag (.text s) true
  | no {s : String} (h : s.map Char.toLower ∈ noWords) : Value.MeansFlag (.text s) false

namespace Declaration

theorem integerFlag_eq_ok_iff {n : Int} {b : Bool} : integerFlag n = .ok b ↔ n = b.toInt := by
  rw [integerFlag]
  split
  · next h => cases b <;> simp [h]
  · next h =>
    split
    · next h' => cases b <;> simp [h']
    · next h' => cases b <;> simp [h, h', Checked.fault]

theorem floatFlag_eq_ok_iff {x : Binary64} {b : Bool} :
    floatFlag x = .ok b ↔ x.toInt? = some b.toInt := by
  have hword : isWordSized b.toInt = true := by cases b <;> decide
  rw [floatFlag]
  cases x.toInt? with
  | none => simp [Checked.fault]
  | some n =>
    simp only [Option.some.injEq]
    split
    · exact integerFlag_eq_ok_iff
    · next h =>
      refine ⟨fun hfault => absurd hfault Checked.fault_ne_ok, ?_⟩
      rintro rfl
      exact absurd hword h

theorem notMem_yesWords : ∀ word ∈ noWords, word ∉ yesWords := by
  decide

/-- A flag is read from the values that stand for one. -/
theorem flag_eq_ok_iff {v : Value} {b : Bool} : flag v = .ok b ↔ v.MeansFlag b := by
  constructor
  · intro h
    cases v with
    | bool b' =>
      obtain rfl := Except.ok.inj h
      exact .bool b'
    | int n =>
      rw [flag] at h
      split at h
      · exact integerFlag_eq_ok_iff.1 h ▸ .int b
      · exact absurd h Checked.fault_ne_ok
    | float x => exact .float (floatFlag_eq_ok_iff.1 h)
    | decimal d => exact .decimal (floatFlag_eq_ok_iff.1 h)
    | text s =>
      simp only [flag, List.contains_iff_mem] at h
      split at h
      · next hyes =>
        obtain rfl := Except.ok.inj h
        exact .yes hyes
      · split at h
        · next hno =>
          obtain rfl := Except.ok.inj h
          exact .no hno
        · exact absurd h Checked.fault_ne_ok
    | _ => exact absurd h Checked.fault_ne_ok
  · intro h
    cases h with
    | bool b => rfl
    | int b => cases b <;> rfl
    | float h => exact floatFlag_eq_ok_iff.2 h
    | decimal h => exact floatFlag_eq_ok_iff.2 h
    | yes h => simp [flag, h]
    | no h => simp [flag, h, notMem_yesWords _ h]

end Declaration
end RecordProjection
