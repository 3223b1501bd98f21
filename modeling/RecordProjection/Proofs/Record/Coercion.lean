import RecordProjection.Proofs.Json.Canonical
import RecordProjection.Proofs.Results
import RecordProjection.Record.Projection

/-!
# What coercions give

A value read as a date is a date or nothing, one read as a moment a moment or nothing, and one read
as a decimal a text that is not blank or nothing; read as any other type it is left alone. What a
coercion gives it gives again when it is applied to its own result.

## Main definitions

* `Value.ScalarConforms` : a value is what another one can be read as in a field of a type.
-/
namespace RecordProjection

/-! ## Texts that are not blank -/

namespace Text

theorem isBlankText_eq_false_iff {s : String} :
    isBlankText s = false ↔ ∃ c ∈ s.toList, isBlank c = false := by
  simp [isBlankText]

theorem isBlank_of_digit {c : Char} (h : c.isDigit) : isBlank c = false := by
  have hrange : 48 ≤ c.toNat ∧ c.toNat ≤ 57 := by
    simp only [Char.isDigit, Bool.and_eq_true, decide_eq_true_eq, ge_iff_le,
      UInt32.le_iff_toNat_le, Char.toNat_val] at h
    exact h
  simp only [isBlank, Bool.or_eq_false_iff, Bool.and_eq_false_iff, decide_eq_false_iff_not,
    beq_eq_false_iff_ne]
  omega

end Text

namespace Number

theorem exists_notBlank_decimal (n : Nat) : ∃ c ∈ decimal n, Text.isBlank c = false := by
  obtain ⟨c, r, hd, hdigit⟩ := Value.decimal_eq_cons n
  exact ⟨c, hd ▸ List.mem_cons_self, Text.isBlank_of_digit hdigit⟩

theorem exists_notBlank_integerText (n : Int) : ∃ c ∈ integerText n, Text.isBlank c = false := by
  obtain ⟨c, hc, hblank⟩ := exists_notBlank_decimal n.natAbs
  rw [integerText]
  split
  · exact ⟨c, List.mem_cons_of_mem _ hc, hblank⟩
  · exact ⟨c, hc, hblank⟩

/-- Digits written out in place have a point or a nought in front of it, unless the point lies
behind the last of them. -/
theorem exists_notBlank_positional {digits : List Char} {point : Int}
    (h : (∃ c ∈ digits, Text.isBlank c = false) ∨ point < digits.length) :
    ∃ c ∈ positional digits point, Text.isBlank c = false := by
  rw [positional]
  split
  · exact ⟨'0', by simp, by decide⟩
  · next hpoint =>
    split
    · next hlength =>
      rcases h with ⟨c, hc, hblank⟩ | h
      · exact ⟨c, List.mem_append_left _ hc, hblank⟩
      · exact absurd h (by omega)
    · exact ⟨'.', by simp, by decide⟩

end Number

/-- The magnitude of a number has a point when it is written out in place, and a mark before its
exponent when it is not. -/
theorem Binary64.exists_notBlank_magnitudeText (rank : Nat) :
    ∃ c ∈ Binary64.magnitudeText rank, Text.isBlank c = false := by
  rw [magnitudeText]
  split
  · exact ⟨'0', by simp, by decide⟩
  · dsimp only
    split
    · split
      · exact ⟨'.', by simp, by decide⟩
      · next hlength =>
        exact Number.exists_notBlank_positional (.inr (by omega))
    · exact ⟨'e', by simp, by decide⟩

theorem Binary64.exists_notBlank_text {x : Binary64} (hx : x.isFinite = true) :
    ∃ c ∈ x.text, Text.isBlank c = false := by
  cases x with
  | nan => simp [isFinite] at hx
  | infinite negative => simp [isFinite] at hx
  | finite negative rank hrank =>
    obtain ⟨c, hc, hblank⟩ := exists_notBlank_magnitudeText rank
    exact ⟨c, List.mem_append_right _ hc, hblank⟩

theorem Decimal.exists_notBlank_text {d : Decimal} (hd : d.isFinite = true) :
    ∃ c ∈ d.text, Text.isBlank c = false := by
  cases d with
  | infinite negative => simp [isFinite] at hd
  | undefined negative signalling payload => simp [isFinite] at hd
  | finite negative coefficient exponent =>
    have hmagnitude : ∃ c ∈ magnitudeText coefficient exponent, Text.isBlank c = false := by
      rw [magnitudeText]
      split
      · exact Number.exists_notBlank_positional (.inl (Number.exists_notBlank_decimal _))
      · exact ⟨'E', by simp, by decide⟩
    obtain ⟨c, hc, hblank⟩ := hmagnitude
    exact ⟨c, List.mem_append_right _ hc, hblank⟩

namespace Value

/-- The text of a decimal is never blank. -/
theorem isBlankText_of_toDecimalText? {v : Value} {s : String}
    (h : v.toDecimalText? = .ok (some s)) : Text.isBlankText s = false := by
  cases v with
  | int n =>
    rw [toDecimalText?] at h
    split at h
    · obtain rfl := Option.some.inj (Except.ok.inj h)
      rw [Text.isBlankText_eq_false_iff, String.toList_ofList]
      exact Number.exists_notBlank_integerText n
    · cases h
  | float x =>
    have h := Except.ok.inj h
    split at h
    · next hx =>
      obtain rfl := Option.some.inj h
      rw [Text.isBlankText_eq_false_iff, String.toList_ofList]
      exact x.exists_notBlank_text hx
    · cases h
  | decimal d =>
    have h := Except.ok.inj h
    split at h
    · next hd =>
      obtain rfl := Option.some.inj h
      rw [Text.isBlankText_eq_false_iff, String.toList_ofList]
      exact d.exists_notBlank_text hd
    · cases h
  | text t =>
    have h := Except.ok.inj h
    split at h
    · cases h
    · next ht =>
      obtain rfl := Option.some.inj h
      exact Bool.eq_false_iff.2 ht
  | _ => cases Except.ok.inj h

/-! ## Coercions -/

theorem coerce_date (v : Value) : v.coerce "date" =
    (v.toDate?.map fun d => (d.map date).getD null).mapError .dateOverflow := by
  rw [coerce, if_pos rfl]

theorem coerce_datetime (v : Value) :
    v.coerce "datetime" = .ok ((v.toMoment?.map moment).getD null) := by
  rw [coerce, if_neg (by decide), if_pos rfl]

theorem coerce_decimal (v : Value) :
    v.coerce "Decimal" = v.toDecimalText?.map fun s => (s.map text).getD null := by
  rw [coerce, if_neg (by decide), if_neg (by decide), if_pos rfl]

/-- What a value can be read as in a field of a type. -/
def ScalarConforms (type : String) (v w : Value) : Prop :=
  if type = "date" then w = null ∨ ∃ d, w = date d
  else if type = "datetime" then w = null ∨ ∃ m, w = moment m
  else if type = "Decimal" then w = null ∨ ∃ s, w = text s ∧ Text.isBlankText s = false
  else w = v

theorem scalarConforms_of_coerce {type : String} {v w : Value} (h : v.coerce type = .ok w) :
    v.ScalarConforms type w := by
  rw [coerce] at h
  rw [ScalarConforms]
  split at h
  · next hdate =>
    rw [if_pos hdate]
    obtain ⟨d, -, rfl⟩ := exceptMap_eq_ok_iff.1 (exceptMapError_eq_ok_iff.1 h)
    cases d with
    | none => exact .inl rfl
    | some d => exact .inr ⟨d, rfl⟩
  · next hdate =>
    rw [if_neg hdate]
    split at h
    · next hmoment =>
      rw [if_pos hmoment]
      obtain rfl := Except.ok.inj h
      cases v.toMoment? with
      | none => exact .inl rfl
      | some m => exact .inr ⟨m, rfl⟩
    · next hmoment =>
      rw [if_neg hmoment]
      split at h
      · next hdecimal =>
        rw [if_pos hdecimal]
        obtain ⟨s, hs, rfl⟩ := exceptMap_eq_ok_iff.1 h
        cases s with
        | none => exact .inl rfl
        | some s => exact .inr ⟨s, rfl, isBlankText_of_toDecimalText? hs⟩
      · next hdecimal =>
        rw [if_neg hdecimal]
        exact (Except.ok.inj h).symm

/-- What was read as a type is read as that type again without change. -/
theorem coerce_of_scalarConforms {type : String} {v w : Value} (h : v.ScalarConforms type w) :
    w.coerce type = .ok w := by
  rw [ScalarConforms] at h
  rw [coerce]
  split at h
  · next hdate =>
    rw [if_pos hdate]
    rcases h with rfl | ⟨d, rfl⟩ <;> rfl
  · next hdate =>
    rw [if_neg hdate]
    split at h
    · next hmoment =>
      rw [if_pos hmoment]
      rcases h with rfl | ⟨m, rfl⟩ <;> rfl
    · next hmoment =>
      rw [if_neg hmoment]
      split at h
      · next hdecimal =>
        rw [if_pos hdecimal]
        rcases h with rfl | ⟨s, rfl, hs⟩
        · rfl
        · simp [toDecimalText?, hs, Except.map]
      · next hdecimal =>
        rw [if_neg hdecimal]

end Value

theorem scalarConforms_of_readScalar {type : String} {v w : Value}
    (h : readScalar type v = .ok w) : v.ScalarConforms type w := by
  rw [readScalar, exceptMapError_eq_ok_iff] at h
  exact Value.scalarConforms_of_coerce h

theorem readScalar_of_scalarConforms {type : String} {v w : Value}
    (h : v.ScalarConforms type w) : readScalar type w = .ok w := by
  rw [readScalar, Value.coerce_of_scalarConforms h]
  rfl

end RecordProjection
