import RecordProjection.Proofs.Engine.Transparency
import RecordProjection.Proofs.Record.Unreadable
import RecordProjection.Schema.Builtin

/-!
# Failures that reach a caller

A caller has to expect three failures: a text that is no shape, a shape that the schemas do not
allow, and a payload with an obstacle. An engine made from settings fails in one way more, for a
value that cannot be read: a date outside the calendar, or a decimal with too many digits. Nothing
else guards against it: a payload that holds such a value where one is asked for is never projected.

## Main definitions

* `Failure.IsExpected` : one of the three failures that a caller has to expect.
* `Engine.CannotRead` : a payload holds a value that an engine is asked for and that cannot be read.
* `Settles` : a result, or an expected failure, apart from values that cannot be read.
-/
namespace RecordProjection

/-- A failure that a caller has to expect. -/
def Failure.IsExpected : Failure → Prop
  | .notShape _ | .schema _ | .obstacle _ => True
  | .declaration _ | .argument _ | .coercion _ | .notIterable _ => False

/-- A payload, taken apart if it has to be, holds a value that a descriptor asks for and that cannot
be read. -/
def Descriptor.CannotReadPayload (d : Descriptor) (joiner : Option Joiner) (raw : Value)
    (e : CoercionError) : Prop :=
  ∃ v, d.unflattened joiner raw = .ok v ∧ d.CannotRead v e

/-- A payload holds a value that an engine is asked for and that cannot be read. -/
def Engine.CannotRead (engine : Engine) (model : String) (input : ShapeInput)
    (flat flatLists : Option Bool) (raw : Value) (e : CoercionError) : Prop :=
  ∃ d, (plainShape input flat flatLists).bind (engine.plainDescriptor model) = .ok d ∧
    d.CannotReadPayload engine.joiner raw e

/-- What comes of a request when all values can be read is a result or an expected failure. When one
cannot be read, there is no result. -/
def Settles {α : Type} (unreadable : CoercionError → Prop) : Except Failure α → Prop
  | .ok _ => ∀ e, ¬ unreadable e
  | .error err => err.IsExpected ∨ ∃ e, err = .coercion e ∧ unreadable e

/-- There is no value to read. -/
def NothingUnreadable (_ : CoercionError) : Prop := False

namespace Settles
variable {α β : Type} {unreadable : CoercionError → Prop}

theorem congr {unreadable' : CoercionError → Prop} (h : ∀ e, unreadable e ↔ unreadable' e)
    {r : Except Failure α} (hr : Settles unreadable r) : Settles unreadable' r := by
  rwa [← funext fun e => propext (h e)]

/-- A step that settles without values to read, followed by one for each of its results. -/
theorem bind {r : Except Failure α} {next : α → Except Failure β}
    {unreadable : α → CoercionError → Prop} (hr : Settles NothingUnreadable r)
    (hnext : ∀ a, Settles (unreadable a) (next a)) :
    Settles (fun e => ∃ a, r = .ok a ∧ unreadable a e) (r.bind next) := by
  cases r with
  | error err => exact .inl (hr.resolve_right fun ⟨_, _, h⟩ => h)
  | ok a =>
    refine (hnext a).congr fun e => ?_
    simp

end Settles

/-! ## Shapes and descriptors -/

namespace Engine

theorem settles_plainShape (input : ShapeInput) (flat flatLists : Option Bool) :
    Settles NothingUnreadable (plainShape input flat flatLists) := by
  cases input with
  | text s =>
    rw [plainShape]
    cases Shape.parse s with
    | error err => exact .inl trivial
    | ok shape => exact fun _ => id
  | shape shape => exact fun _ => id

theorem settles_plainDescriptor (e : Engine) (model : String) (shape : Shape) :
    Settles NothingUnreadable (e.plainDescriptor model shape) := by
  rw [plainDescriptor]
  cases e.registry.resolve e.maxDepth.1 model shape with
  | error err => exact .inl trivial
  | ok d => exact fun _ => id

theorem settles_plainDescribe (e : Engine) (model : String) (input : ShapeInput)
    (flat flatLists : Option Bool) :
    Settles NothingUnreadable
      ((plainShape input flat flatLists).bind (e.plainDescriptor model)) := by
  refine ((settles_plainShape input flat flatLists).bind
    (e.settles_plainDescriptor model)).congr fun _ => ?_
  simp [NothingUnreadable]

end Engine

/-! ## Records -/

namespace Descriptor
variable {d : Descriptor} {j : Joiner} {raw : Value} {origin : String}

/-- With a joiner every payload can be taken apart. -/
theorem exists_unflattened (d : Descriptor) (j : Joiner) (raw : Value) :
    ∃ v, d.unflattened (some j) raw = .ok v := by
  rw [unflattened.eq_def]
  split
  · rcases raw.mapping_or_not with ⟨members, rfl⟩ | hraw
    · exact ⟨_, rfl⟩
    · refine ⟨raw, ?_⟩
      split
      · exact absurd rfl (hraw _)
      · exact absurd rfl (hraw _)
      · rfl
  · exact ⟨_, rfl⟩

/-- A record fails for an obstacle, or for a value that cannot be read where there is one. -/
theorem explained_record {err : ProjectionError} (h : d.record (some j) raw origin = .error err) :
    err.Explained (d.CannotReadPayload (some j) raw) := by
  obtain ⟨v, hv⟩ := d.exists_unflattened j raw
  rw [record, hv] at h
  have hcannot (e : CoercionError) (h : d.CannotRead v e) : d.CannotReadPayload (some j) raw e :=
    ⟨v, hv, h⟩
  exact (d.explained_project v _ err h).mono hcannot

theorem record_ne_ok {e : CoercionError} (h : d.CannotReadPayload (some j) raw e) (out : Value) :
    d.record (some j) raw origin ≠ .ok out := by
  obtain ⟨v, hv, hcannot⟩ := h
  rw [record, hv]
  exact d.project_ne_ok v hcannot _ out

/-- What is explained as a projection settles as a request. -/
theorem settles_of_explained {α : Type} {unreadable : CoercionError → Prop}
    {r : Except ProjectionError α} (herror : ∀ err, r = .error err → err.Explained unreadable)
    (hok : ∀ out e, unreadable e → r ≠ .ok out) :
    Settles unreadable (r.mapError .ofProjection) := by
  cases r with
  | ok out => exact fun e h => hok out e h rfl
  | error err =>
    have herr := herror err rfl
    cases err with
    | obstacle o => exact .inl trivial
    | coercion e => exact .inr ⟨e, rfl, herr⟩
    | emptyJoiner => exact herr.elim

theorem settles_record (d : Descriptor) (j : Joiner) (raw : Value) (origin : String) :
    Settles (d.CannotReadPayload (some j) raw)
      ((d.record (some j) raw origin).mapError .ofProjection) :=
  settles_of_explained (fun _ => explained_record) fun out _ h => record_ne_ok h out

/-- The items of a list settle together. -/
theorem settles_records (d : Descriptor) (j : Joiner) (items : List Value) :
    Settles (fun e => ∃ raw ∈ items, d.CannotReadPayload (some j) raw e)
      ((d.records (some j) items).mapError .ofProjection) := by
  refine settles_of_explained ?_ ?_
  · intro err h
    obtain ⟨⟨raw, i⟩, hraw, h⟩ := exists_of_mapM_eq_error h
    have hmem : raw ∈ items := List.fst_mem_of_mem_zipIdx hraw
    exact (explained_record h).mono fun e hcannot => ⟨raw, hmem, hcannot⟩
  · rintro outs e ⟨raw, hraw, hcannot⟩ h
    obtain ⟨out, -, i, hout⟩ := exists_of_mem_forall₂_left (forall₂_of_mapM_zipIdx h) hraw
    exact record_ne_ok hcannot out hout

end Descriptor

/-! ## Engines -/

namespace Engine

/-- Requests to an engine settle, whatever was asked before: a payload is projected or fails as a
caller has to expect, unless a value that is asked for cannot be read. Dates outside the calendar
and decimals of integers with too many digits are all that cannot be read. -/
theorem failures_settle (registry : Registry) (settings : Settings) (before : List Request) :
    let engine := ofSettings registry settings
    let m := engine.memoryAfter engine.freshMemory before
    (∀ input flat flatLists,
      Settles NothingUnreadable (engine.shapeOf m input flat flatLists).result) ∧
    (∀ model input flat flatLists,
      Settles NothingUnreadable (engine.describe m model input flat flatLists).result) ∧
    (∀ model input flat flatLists raw,
      Settles (engine.CannotRead model input flat flatLists raw)
        (engine.one m model input flat flatLists raw).result) ∧
    (∀ model input flat flatLists items,
      Settles (fun e => ∃ raw ∈ items, engine.CannotRead model input flat flatLists raw e)
        (engine.list m model input flat flatLists (.list items)).result) ∧
    ∀ (type : String) (v : Value) (e : CoercionError),
      v.coerce type = .error e ↔ v.Unreadable type e := by
  intro engine m
  have hm : Faithful engine m := faithful_memoryAfter (faithful_freshMemory engine) before
  refine ⟨?_, ?_, ?_, ?_, fun _ _ _ => Value.coerce_eq_error_iff⟩
  · intro input flat flatLists
    rw [(gives_shapeOf hm input flat flatLists).result_eq]
    exact settles_plainShape input flat flatLists
  · intro model input flat flatLists
    rw [(gives_describe hm model input flat flatLists).result_eq]
    exact engine.settles_plainDescribe model input flat flatLists
  · intro model input flat flatLists raw
    rw [one, ((gives_describe hm model input flat flatLists).mapResult _).result_eq]
    exact (engine.settles_plainDescribe model input flat flatLists).bind
      fun d => d.settles_record settings.joiner raw "root"
  · intro model input flat flatLists items
    rw [list, ((gives_describe hm model input flat flatLists).mapResult _).result_eq]
    refine Settles.congr (fun e => ?_) ((engine.settles_plainDescribe model input flat
      flatLists).bind fun d => d.settles_records settings.joiner items)
    constructor
    · rintro ⟨d, hd, raw, hraw, hcannot⟩
      exact ⟨raw, hraw, d, hd, hcannot⟩
    · rintro ⟨raw, hraw, d, hd, hcannot⟩
      exact ⟨d, hd, raw, hraw, hcannot⟩

/-- Two contracts, the second one with a date before the first day of the calendar. -/
def awards : List Value :=
  [.mapping [("award_date", .text "2024-01-15")],
    .mapping [("award_date", .text "0001-01-01T00:00:00+01:00")]]

/-- Because of one date outside the calendar no record of a list comes out. An integer with too many
digits cannot be read as a decimal either. -/
theorem list_fails_for_date :
    ((ofSettings .builtin .default).list (ofSettings .builtin .default).freshMemory "Contract"
      (.shape ⟨[.named "award_date" none none (by decide)], false, false⟩) none none
      (.list awards)).result = .error (.coercion (.dateOverflow ⟨⟩)) ∧
    ¬ (Failure.coercion (.dateOverflow ⟨⟩)).IsExpected ∧
    (Value.text "0001-01-01T00:00:00+01:00").coerce "date" = .error (.dateOverflow ⟨⟩) ∧
    (Value.int (Number.tenPow Json.maxDigits)).coerce "Decimal" = .error .integerTooLong :=
  ⟨rfl, id, rfl, Value.coerce_eq_error_iff.2 (.decimal (Nat.le_of_eq (Int.natAbs_natCast _).symm))⟩

end Engine
end RecordProjection
