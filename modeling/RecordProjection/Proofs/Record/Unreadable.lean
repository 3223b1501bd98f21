import RecordProjection.Proofs.Calendar.UniversalDates
import RecordProjection.Proofs.Descriptor.Levels
import RecordProjection.Proofs.Number.FixedDecimal
import RecordProjection.Proofs.Record.Coercion
import RecordProjection.Proofs.Record.Walk

/-!
# Values that stop a projection

A projection meets two difficulties: an obstacle, and a value that cannot be read. The second one
lies in the payload and not in the walk: it takes a field of type date with a moment that has no
date in universal time, or a decimal field with an integer that has too many digits to be written.
Where there is one no projection succeeds.

## Main definitions

* `Value.Unreadable` : a value cannot be read as a scalar of a type, and why.
* `Descriptor.CannotRead` : a value that a descriptor asks for cannot be read, and why.
-/
namespace RecordProjection

/-- A value cannot be read as a scalar of a type: as a date, a moment whose date in universal time
lies outside the calendar; as a decimal, an integer with more digits than are written. -/
inductive Value.Unreadable : String → Value → CoercionError → Prop
  | date {v : Value} {m : Moment} (stands : v.toMoment? = some m) (outside : m.Outside) :
      Value.Unreadable "date" v (.dateOverflow ⟨⟩)
  | decimal {n : Int} (long : Number.tenPow Json.maxDigits ≤ n.natAbs) :
      Value.Unreadable "Decimal" (.int n) .integerTooLong

/-- Only dates overflow. -/
theorem Value.Unreadable.eq_date {type : String} {v : Value} {e : DateOverflow}
    (h : v.Unreadable type (.dateOverflow e)) : type = "date" := by
  cases h
  rfl

mutual

/-- A value that a descriptor asks for in another one cannot be read. -/
inductive Descriptor.CannotRead : Descriptor → Value → CoercionError → Prop
  | field {d : Descriptor} {f : ResolvedField} {members : Members} {v : Value} {e : CoercionError}
      (mem : f ∈ d.fields) (source : Entries.get? f.source.name members = some v)
      (there : ResolvedField.CannotRead f v e) : Descriptor.CannotRead d (.mapping members) e

/-- A value that a field asks for in its own value cannot be read. -/
inductive ResolvedField.CannotRead : ResolvedField → Value → CoercionError → Prop
  | scalar {f : ResolvedField} {v : Value} {e : CoercionError} (plain : f.nested = none)
      (single : f.source.isList = false) (unreadable : v.Unreadable f.source.type e) :
      ResolvedField.CannotRead f v e
  | scalars {f : ResolvedField} {items : List Value} {v : Value} {e : CoercionError}
      (plain : f.nested = none) (isList : f.source.isList = true) (mem : v ∈ items)
      (unreadable : v.Unreadable f.source.type e) : ResolvedField.CannotRead f (.list items) e
  | inner {f : ResolvedField} {n : Descriptor} {v : Value} {e : CoercionError}
      (nested : f.nested = some n) (single : f.source.isList = false)
      (inside : Descriptor.CannotRead n v e) : ResolvedField.CannotRead f v e
  | records {f : ResolvedField} {n : Descriptor} {items : List Value} {v : Value}
      {e : CoercionError} (nested : f.nested = some n) (isList : f.source.isList = true)
      (mem : v ∈ items) (inside : Descriptor.CannotRead n v e) :
      ResolvedField.CannotRead f (.list items) e

end

/-- An error of a projection: an obstacle, or a value that cannot be read where there is one. -/
def ProjectionError.Explained (unreadable : CoercionError → Prop) : ProjectionError → Prop
  | .obstacle _ => True
  | .coercion e => unreadable e
  | .emptyJoiner => False

theorem ProjectionError.Explained.mono {unreadable unreadable' : CoercionError → Prop}
    (h : ∀ e, unreadable e → unreadable' e) {err : ProjectionError}
    (herr : err.Explained unreadable) : err.Explained unreadable' := by
  cases err with
  | obstacle o => trivial
  | coercion e => exact h e herr
  | emptyJoiner => exact herr

/-! ## Scalars -/

namespace Value

/-- Only integers with too many digits have no text as decimals. -/
theorem toDecimalText?_eq_error_iff {v : Value} {e : CoercionError} :
    v.toDecimalText? = .error e ↔
      e = .integerTooLong ∧ ∃ n, v = int n ∧ Number.tenPow Json.maxDigits ≤ n.natAbs := by
  cases v with
  | int n =>
    have hlong : ¬ (Number.decimal n.natAbs).length ≤ Json.maxDigits ↔
        Number.tenPow Json.maxDigits ≤ n.natAbs := by
      rw [Number.length_decimal_le_iff (by decide), Nat.not_lt]
    rw [toDecimalText?]
    split
    · next hshort => simp [← hlong, hshort]
    · next hshort => simp [← hlong, hshort, eq_comm]
  | _ => simp [toDecimalText?]

/-- Dates outside the calendar and integers with too many digits are all that cannot be read. -/
theorem coerce_eq_error_iff {type : String} {v : Value} {e : CoercionError} :
    v.coerce type = .error e ↔ v.Unreadable type e := by
  constructor
  · intro h
    rw [coerce] at h
    split at h
    · next hdate =>
      obtain ⟨⟨⟩, houtside, rfl⟩ := exceptMapError_eq_error_iff.1 h
      obtain ⟨m, hm, houtside⟩ := toDate?_eq_error_iff.1 (exceptMap_eq_error_iff.1 houtside)
      exact hdate ▸ .date hm houtside
    split at h
    · cases h
    split at h
    · next hdecimal =>
      obtain ⟨rfl, n, rfl, hlong⟩ := toDecimalText?_eq_error_iff.1 (exceptMap_eq_error_iff.1 h)
      exact hdecimal ▸ .decimal hlong
    · cases h
  · intro h
    cases h with
    | date hm houtside =>
      have hdate := toDate?_eq_error_iff.2 ⟨_, hm, houtside⟩
      rw [coerce_date, hdate]
      rfl
    | @decimal n hlong =>
      have hdecimal := toDecimalText?_eq_error_iff.2 ⟨rfl, n, rfl, hlong⟩
      rw [coerce_decimal, hdecimal]
      rfl

end Value

theorem readScalar_eq_error_iff {type : String} {v : Value} {err : ProjectionError} :
    readScalar type v = .error err ↔ ∃ e, v.Unreadable type e ∧ err = .coercion e := by
  rw [readScalar, exceptMapError_eq_error_iff]
  exact exists_congr fun e => and_congr Value.coerce_eq_error_iff eq_comm

/-! ## Fields -/

namespace ResolvedField
variable {f : ResolvedField} {v : Value} {err : ProjectionError}

theorem explained_readPlain (hf : f.nested = none) (h : readPlain f.source v = .error err) :
    err.Explained (f.CannotRead v) := by
  cases hl : f.source.isList with
  | false =>
    rw [readPlain_single hl] at h
    obtain ⟨e, hunreadable, rfl⟩ := readScalar_eq_error_iff.1 h
    exact .scalar hf hl hunreadable
  | true =>
    rcases v.list_or_not with ⟨items, rfl⟩ | hv
    · rw [readPlain_list hl, exceptMap_eq_error_iff] at h
      obtain ⟨u, hu, h⟩ := exists_of_mapM_eq_error h
      obtain ⟨e, hunreadable, rfl⟩ := readScalar_eq_error_iff.1 h
      exact .scalars hf hl hu hunreadable
    · rw [readPlain_of_not_list hl hv] at h
      cases h

theorem explained_readNested {n : Descriptor} {model : String} {l : Location}
    (hf : f.nested = some n)
    (hn : ∀ u l err, n.project u l = .error err → err.Explained (n.CannotRead u))
    (h : readNested model n.model f.source n.project v l = .error err) :
    err.Explained (f.CannotRead v) := by
  cases hl : f.source.isList with
  | false =>
    by_cases hnull : v = .null
    · rw [hnull, readNested_null hl] at h
      cases h
    rcases v.mapping_or_not with ⟨members, rfl⟩ | hv
    · rw [readNested_mapping hl] at h
      exact (hn _ _ _ h).mono fun _ => .inner hf hl
    · rw [readNested_of_not_mapping hl hnull hv] at h
      obtain rfl := Except.error.inj h
      trivial
  | true =>
    rcases v.list_or_not with ⟨items, rfl⟩ | hv
    · rw [readNested_list hl, exceptMap_eq_error_iff] at h
      obtain ⟨⟨u, i⟩, hu, h⟩ := exists_of_mapM_eq_error h
      exact (hn _ _ _ h).mono fun _ => .records hf hl (List.fst_mem_of_mem_zipIdx hu)
    · rw [readNested_of_not_list hl hv] at h
      cases h

/-- The rows of a level fail for one of its fields. -/
theorem exists_of_rows_eq_error {model : String} {members : Members} {l : Location}
    {fs : List ResolvedField} (h : rows model members l fs = .error err) :
    ∃ f ∈ fs, ∃ v, Entries.get? f.source.name members = some v ∧
      f.project model v (l.member f.source.name) = .error err := by
  induction fs with
  | nil => cases h
  | cons f fs ih =>
    have hrest (h : rows model members l fs = .error err) :
        ∃ g ∈ f :: fs, ∃ v, Entries.get? g.source.name members = some v ∧
          g.project model v (l.member g.source.name) = .error err := by
      obtain ⟨g, hg, hv⟩ := ih h
      exact ⟨g, List.mem_cons_of_mem _ hg, hv⟩
    cases hv : Entries.get? f.source.name members with
    | none =>
      rw [rows_cons_of_absent hv] at h
      exact hrest h
    | some v =>
      rw [rows_cons_of_present hv, exceptBind_eq_error_iff] at h
      rcases h with h | ⟨w, -, h⟩
      · exact ⟨f, List.mem_cons_self, v, hv, h⟩
      · rcases exceptBind_eq_error_iff.1 h with h | ⟨rest, -, h⟩
        · exact hrest h
        · cases h

/-- A field with a value inside its own that cannot be read gives nothing. -/
theorem project_ne_ok {e : CoercionError} {model : String} {l : Location}
    (hn : ∀ n, f.nested = some n → ∀ u, n.CannotRead u e → ∀ l out, n.project u l ≠ .ok out)
    (hcannot : f.CannotRead v e) (w : Value) : f.project model v l ≠ .ok w := by
  intro h
  have hscalar {u w : Value} (hunreadable : u.Unreadable f.source.type e) :
      readScalar f.source.type u ≠ .ok w := by
    rw [readScalar_eq_error_iff.2 ⟨e, hunreadable, rfl⟩]
    exact nofun
  cases hcannot with
  | scalar hplain hl hunreadable =>
    rw [project_of_nested_none hplain, readPlain_single hl] at h
    exact hscalar hunreadable h
  | scalars hplain hl hmem hunreadable =>
    rw [project_of_nested_none hplain, readPlain_list hl] at h
    obtain ⟨outs, houts, -⟩ := exceptMap_eq_ok_iff.1 h
    obtain ⟨out, -, hout⟩ := exists_of_mem_forall₂_left (exceptMapM_eq_ok_iff.1 houts) hmem
    exact hscalar hunreadable hout
  | inner hnested hl hinside =>
    obtain ⟨members, rfl⟩ : ∃ members, v = .mapping members := by
      cases hinside with
      | field => exact ⟨_, rfl⟩
    rw [project_of_nested_some hnested, readNested_mapping hl] at h
    exact hn _ hnested _ hinside _ _ h
  | records hnested hl hmem hinside =>
    rw [project_of_nested_some hnested, readNested_list hl] at h
    obtain ⟨outs, houts, -⟩ := exceptMap_eq_ok_iff.1 h
    obtain ⟨out, -, i, hout⟩ := exists_of_mem_forall₂_left (forall₂_of_mapM_zipIdx houts) hmem
    exact hn _ hnested _ hinside _ _ hout

end ResolvedField

/-! ## Descriptors -/

namespace Descriptor

/-- A projection fails for an obstacle, or for a value that cannot be read where there is one. -/
theorem explained_project (d : Descriptor) : ∀ v l err, d.project v l = .error err →
    err.Explained (d.CannotRead v) := by
  induction d using Descriptor.induction with
  | step d ih =>
    intro v l err h
    rcases v.mapping_or_not with ⟨members, rfl⟩ | hv
    · rw [project_mapping, exceptMap_eq_error_iff] at h
      obtain ⟨f, hf, u, hu, h⟩ := ResolvedField.exists_of_rows_eq_error h
      refine ProjectionError.Explained.mono (fun _ => Descriptor.CannotRead.field hf hu) ?_
      cases hnested : f.nested with
      | none =>
        rw [ResolvedField.project_of_nested_none hnested] at h
        exact ResolvedField.explained_readPlain hnested h
      | some n =>
        rw [ResolvedField.project_of_nested_some hnested] at h
        exact ResolvedField.explained_readNested hnested (ih f hf n hnested) h
    · rw [d.project_of_not_mapping hv] at h
      obtain rfl := Except.error.inj h
      trivial

/-- Where a value cannot be read there is no projection. -/
theorem project_ne_ok {e : CoercionError} (d : Descriptor) : ∀ v, d.CannotRead v e →
    ∀ l out, d.project v l ≠ .ok out := by
  induction d using Descriptor.induction with
  | step d ih =>
    intro v hcannot l out h
    cases hcannot with
    | field hf hv hthere =>
      obtain ⟨members, entries, hmembers, hrows, -⟩ := project_eq_ok_iff.1 h
      obtain rfl := Value.mapping.inj hmembers
      obtain ⟨w, hw, -⟩ := ResolvedField.mem_rows hrows hf hv
      exact ResolvedField.project_ne_ok (ih _ hf) hthere w hw

end Descriptor
end RecordProjection
