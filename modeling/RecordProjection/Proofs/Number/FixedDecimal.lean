import Mathlib.Data.List.Induction
import RecordProjection.Number.Digits

/-!
# Numbers of a fixed width

A number that was written with a fixed number of digits is read back, whatever stands behind it, and
a run of digits is how the number that it stands for is written with as many digits.

## Main definitions

* `Number.sixDigits` : a fraction brought to six digits.
* `Number.Digits` : a run of a fixed number of digits.
-/
namespace RecordProjection

namespace Text

theorem isDigit_digitChar {d : Nat} (h : d < 10) : isDigit (digitChar d) = true := by
  have hall : ∀ e < 10, isDigit (digitChar e) = true := by decide
  exact hall d h

theorem digitValue_digitChar {d : Nat} (h : d < 10) : digitValue (digitChar d) = d := by
  have hall : ∀ e < 10, digitValue (digitChar e) = e := by decide
  exact hall d h

/-- Digits are ASCII, from U+0030 to U+0039. -/
theorem toNat_of_isDigit {c : Char} (h : isDigit c = true) : 48 ≤ c.toNat ∧ c.toNat ≤ 57 := by
  simpa [isDigit, Char.le_def, UInt32.le_iff_toNat_le] using h

theorem digitValue_lt {c : Char} (h : isDigit c = true) : digitValue c < 10 := by
  have hrange := toNat_of_isDigit h
  rw [digitValue, show '0'.toNat = 48 from rfl]
  omega

theorem digitChar_digitValue {c : Char} (h : isDigit c = true) : digitChar (digitValue c) = c := by
  have hrange := toNat_of_isDigit h
  have hvalue : '0'.toNat + (c.toNat - '0'.toNat) = c.toNat := by
    rw [show '0'.toNat = 48 from rfl]
    omega
  rw [digitChar, digitValue, hvalue, Char.ofNat_toNat]

end Text

namespace Number

open Text

theorem isDigit_of_mem_fixedDecimal {width n : Nat} {c : Char} (h : c ∈ fixedDecimal width n) :
    isDigit c = true := by
  induction width generalizing n with
  | zero => simp [fixedDecimal] at h
  | succ width ih =>
    rw [fixedDecimal, List.mem_append, List.mem_singleton] at h
    rcases h with h | rfl
    · exact ih h
    · exact isDigit_digitChar (Nat.mod_lt n (by omega))

theorem tenPow_succ (n : Nat) : tenPow (n + 1) = 10 * tenPow n := by
  simp [tenPow, Nat.pow_succ, Nat.mul_comm]

/-- Digits can be read in two runs. -/
theorem readDigits_add (count more sum : Nat) (cs : List Char) :
    readDigits (count + more) sum cs =
      (readDigits count sum cs).bind fun p => readDigits more p.1 p.2 := by
  induction count generalizing sum cs with
  | zero => simp [readDigits]
  | succ count ih =>
    rw [Nat.succ_add]
    cases cs with
    | nil => rfl
    | cons c cs =>
      by_cases hc : isDigit c = true
      · simp [readDigits, hc, ih]
      · simp [readDigits, hc]

/-- The digits that were written are read behind those that were read before. -/
theorem readDigits_fixedDecimal_append (width sum n : Nat) (r : List Char) :
    readDigits width sum (fixedDecimal width n ++ r) =
      some (sum * tenPow width + n % tenPow width, r) := by
  induction width generalizing n r with
  | zero => simp [readDigits, fixedDecimal, tenPow, Nat.mod_one]
  | succ width ih =>
    have hlast : n % 10 < 10 := Nat.mod_lt n (by omega)
    have hmod : n % tenPow (width + 1) = n % 10 + 10 * (n / 10 % tenPow width) := by
      rw [tenPow_succ, Nat.mod_mul]
    have hsum : 10 * (sum * tenPow width + n / 10 % tenPow width) + n % 10 =
        sum * tenPow (width + 1) + n % tenPow (width + 1) := by
      rw [hmod, tenPow_succ, Nat.mul_left_comm]
      omega
    rw [fixedDecimal, List.append_assoc, readDigits_add, ih]
    simp [readDigits, isDigit_digitChar hlast, digitValue_digitChar hlast, hsum]

/-- What is read are the digits at the front of a text. -/
theorem readDigits_eq_some_iff {count sum n : Nat} {cs r : List Char} :
    readDigits count sum cs = some (n, r) ↔ ∃ ds, cs = ds ++ r ∧ ds.length = count ∧
      (∀ c ∈ ds, isDigit c = true) ∧ ds.foldl (fun n c => 10 * n + digitValue c) sum = n := by
  induction count generalizing sum cs with
  | zero =>
    simp only [readDigits, Option.some.injEq, Prod.mk.injEq, List.length_eq_zero_iff]
    constructor
    · rintro ⟨rfl, rfl⟩
      exact ⟨[], rfl, rfl, by simp, rfl⟩
    · rintro ⟨_, rfl, rfl, -, rfl⟩
      exact ⟨rfl, rfl⟩
  | succ count ih =>
    constructor
    · intro h
      cases cs with
      | nil => cases h
      | cons c cs =>
        rw [readDigits] at h
        split at h
        · next hc =>
          obtain ⟨ds, rfl, hlength, hdigits, hn⟩ := ih.1 h
          exact ⟨c :: ds, rfl, congrArg (· + 1) hlength,
            List.forall_mem_cons.2 ⟨hc, hdigits⟩, hn⟩
        · cases h
    · rintro ⟨ds, rfl, hlength, hdigits, hn⟩
      obtain ⟨c, ds, rfl⟩ := List.exists_cons_of_length_eq_add_one hlength
      obtain ⟨hc, hdigits⟩ := List.forall_mem_cons.1 hdigits
      rw [List.cons_append, readDigits, if_pos hc]
      exact ih.2 ⟨ds, rfl, Nat.succ.inj hlength, hdigits, hn⟩

/-- What is read does not depend on what stands behind it. -/
theorem exists_of_readDigits {count sum n : Nat} {cs r : List Char}
    (h : readDigits count sum cs = some (n, r)) : ∃ ds, cs = ds ++ r ∧ ds.length = count ∧
      (∀ c ∈ ds, isDigit c = true) ∧ ∀ r', readDigits count sum (ds ++ r') = some (n, r') := by
  obtain ⟨ds, hcs, hlength, hdigits, hn⟩ := readDigits_eq_some_iff.1 h
  exact ⟨ds, hcs, hlength, hdigits,
    fun r' => readDigits_eq_some_iff.2 ⟨ds, rfl, hlength, hdigits, hn⟩⟩

/-- A number that its digits can hold is read back. -/
theorem readDigits_fixedDecimal {width n : Nat} (h : n < tenPow width) (r : List Char) :
    readDigits width 0 (fixedDecimal width n ++ r) = some (n, r) := by
  rw [readDigits_fixedDecimal_append, Nat.mod_eq_of_lt h, Nat.zero_mul, Nat.zero_add]

/-! ## Runs of digits -/

theorem ofDigits_concat (cs : List Char) (c : Char) :
    ofDigits (cs ++ [c]) = 10 * ofDigits cs + digitValue c := by
  rw [ofDigits, List.foldl_append]
  rfl

/-- The number that digits stand for is written with these digits. -/
theorem fixedDecimal_ofDigits {cs : List Char} (h : ∀ c ∈ cs, isDigit c = true) :
    fixedDecimal cs.length (ofDigits cs) = cs := by
  induction cs using List.reverseRecOn with
  | nil => rfl
  | append_singleton cs c ih =>
    obtain ⟨hcs, hc⟩ := List.forall_mem_append.1 h
    have hlast : isDigit c = true := hc c (List.mem_singleton_self c)
    have hvalue := digitValue_lt hlast
    have htens : (10 * ofDigits cs + digitValue c) / 10 = ofDigits cs := by omega
    have hunits : (10 * ofDigits cs + digitValue c) % 10 = digitValue c := by omega
    rw [List.length_append, List.length_singleton, fixedDecimal, ofDigits_concat, htens, hunits,
      ih hcs, digitChar_digitValue hlast]

theorem ofDigits_lt {cs : List Char} (h : ∀ c ∈ cs, isDigit c = true) :
    ofDigits cs < tenPow cs.length := by
  induction cs using List.reverseRecOn with
  | nil => decide
  | append_singleton cs c ih =>
    obtain ⟨hcs, hc⟩ := List.forall_mem_append.1 h
    have hvalue := digitValue_lt (hc c (List.mem_singleton_self c))
    have hbelow := ih hcs
    rw [List.length_append, List.length_singleton, tenPow_succ, ofDigits_concat]
    omega

/-- A number has a digit more for each power of ten that it reaches. -/
theorem length_decimal_le_iff {n k : Nat} (hk : 0 < k) : (decimal n).length ≤ k ↔ n < tenPow k :=
  Nat.length_toDigits_le_iff (by decide) hk

/-- A number has no more digits than a run that stands for it. -/
theorem length_decimal_ofDigits_le {cs : List Char} (hne : cs ≠ [])
    (h : ∀ c ∈ cs, isDigit c = true) : (decimal (ofDigits cs)).length ≤ cs.length :=
  (length_decimal_le_iff (List.length_pos_iff.2 hne)).2 (ofDigits_lt h)

/-- The first six digits of a fraction, with noughts behind them when there are fewer. -/
def sixDigits (ds : List Char) : List Char := ds.take 6 ++ List.replicate (6 - ds.length) '0'

@[simp] theorem length_sixDigits (ds : List Char) : (sixDigits ds).length = 6 := by
  rw [sixDigits, List.length_append, List.length_take, List.length_replicate]
  omega

theorem forall_mem_sixDigits {p : Char → Prop} {ds : List Char} (hnought : p '0')
    (h : ∀ c ∈ ds, p c) : ∀ c ∈ sixDigits ds, p c := by
  intro c hc
  rcases List.mem_append.1 hc with hc | hc
  · exact h c (List.mem_of_mem_take hc)
  · rwa [List.eq_of_mem_replicate hc]

theorem sixDigits_eq {ds : List Char} (h : ∀ c ∈ ds, isDigit c = true) :
    sixDigits ds = fixedDecimal 6 (ofDigits (sixDigits ds)) := by
  have h := fixedDecimal_ofDigits (forall_mem_sixDigits rfl h)
  rw [length_sixDigits] at h
  exact h.symm

theorem ofDigits_sixDigits_lt {ds : List Char} (h : ∀ c ∈ ds, isDigit c = true) :
    ofDigits (sixDigits ds) < 1000000 := by
  have h := ofDigits_lt (forall_mem_sixDigits rfl h)
  rwa [length_sixDigits] at h

theorem ofDigits_append_noughts (ds : List Char) (n : Nat) :
    ofDigits (ds ++ List.replicate n '0') = ofDigits ds * tenPow n := by
  induction n with
  | zero => simp [tenPow]
  | succ n ih =>
    have hnought : digitValue '0' = 0 := rfl
    rw [List.replicate_succ', ← List.append_assoc, ofDigits_concat, ih, tenPow_succ, hnought,
      Nat.add_zero, Nat.mul_left_comm]

theorem ofDigits_sixDigits {ds : List Char} (h : ds.length ≤ 6) :
    ofDigits (sixDigits ds) = ofDigits ds * tenPow (6 - ds.length) := by
  rw [sixDigits, List.take_of_length_le h, ofDigits_append_noughts]

/-- A run of a fixed number of digits. -/
structure Digits (width : Nat) where
  chars : List Char
  length_eq : chars.length = width
  isDigit_of_mem : ∀ c ∈ chars, isDigit c = true

namespace Digits
variable {width : Nat}

/-- The number that a run of digits stands for. -/
def value (d : Digits width) : Nat := ofDigits d.chars

theorem value_lt (d : Digits width) : d.value < tenPow width := by
  have h := ofDigits_lt d.isDigit_of_mem
  rwa [d.length_eq] at h

theorem chars_eq (d : Digits width) : d.chars = fixedDecimal width d.value := by
  have h := fixedDecimal_ofDigits d.isDigit_of_mem
  rw [d.length_eq] at h
  exact h.symm

end Digits

end Number
end RecordProjection
