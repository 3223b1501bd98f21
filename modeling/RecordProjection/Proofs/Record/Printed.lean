import RecordProjection.Proofs.Calendar.WrittenMoments
import RecordProjection.Proofs.CommandLine.Printing
import RecordProjection.Proofs.Record.Composition

/-!
# Printed records

A printed record has texts where the record has dates and moments. Projected again along the same
descriptor it gives the record: the text of a date is read as that date, and the text of a moment
as that moment with its offset, down to the microsecond.

## Main definitions

* `Value.printed` : a value with its dates and moments as texts.
-/
namespace RecordProjection

namespace Value

open Json

mutual

/-- A value with its dates and moments as texts. -/
def printed : Value → Value
  | date d => text (String.ofList d.text)
  | moment m => text (String.ofList m.text)
  | list items => list (printedItems items)
  | mapping members => mapping (printedMembers members)
  | v => v

/-- The items of a list with their dates and moments as texts. -/
def printedItems : List Value → List Value
  | [] => []
  | v :: vs => printed v :: printedItems vs

/-- The members of a mapping with their dates and moments as texts. -/
def printedMembers : List (String × Value) → List (String × Value)
  | [] => []
  | (key, v) :: ms => (key, printed v) :: printedMembers ms

end

theorem printed_list (items : List Value) : (list items).printed = list (items.map printed) := by
  have hitems : printedItems items = items.map printed := by
    induction items with
    | nil => rfl
    | cons v items ih => rw [printedItems, ih, List.map_cons]
  rw [printed, hitems]

theorem printed_mapping (members : Members) :
    (mapping members).printed = mapping (members.map fun m => (m.1, m.2.printed)) := by
  have hmembers : printedMembers members = members.map fun m => (m.1, m.2.printed) := by
    induction members with
    | nil => rfl
    | cons m members ih => rw [printedMembers, ih, List.map_cons]
  rw [printed, hmembers]

/-- A JSON value is printed as it is. -/
theorem printed_of_built {v : Value} (h : v.Built isJsonScalar) : v.printed = v := by
  induction h with
  | @leaf v h =>
    cases v with
    | date d => cases h
    | moment m => cases h
    | list items => cases h
    | mapping members => cases h
    | _ => rfl
  | list _ ih => rw [printed_list, List.map_congr_left ih, List.map_id']
  | @mapping members _ ih =>
    have hmembers : members.map (fun m => (m.1, m.2.printed)) = members := by
      conv_rhs => rw [← List.map_id' members]
      exact List.map_congr_left fun m hm => by rw [ih m hm]
    rw [printed_mapping, hmembers]

/-! ## The text of a printed value -/

/-- What can be printed is printed as a JSON value. -/
theorem built_printed {v : Value} (h : v.Built isPrintableScalar) :
    v.printed.Built isJsonScalar := by
  induction h with
  | @leaf v h =>
    cases v with
    | decimal d => cases h
    | list items => cases h
    | mapping members => cases h
    | _ => exact .leaf rfl
  | list _ ih =>
    rw [printed_list]
    exact .list (List.forall_mem_map.2 ih)
  | mapping _ ih =>
    rw [printed_mapping]
    exact .mapping (List.forall_mem_map.2 ih)

theorem indentedItems_eq_map (level : Nat) (items : List Value) :
    indentedItems level items = items.map (indentedChars level) := by
  induction items with
  | nil => rfl
  | cons v items ih => rw [indentedItems, ih, List.map_cons]

theorem indentedMembers_eq_map (level : Nat) (members : Members) :
    indentedMembers level members =
      members.map fun m => quotedChars m.1.toList ++ ':' :: ' ' :: indentedChars level m.2 := by
  induction members with
  | nil => rfl
  | cons m members ih => rw [indentedMembers, ih, List.map_cons]

/-- A value has the text of its printed form. -/
theorem indentedChars_printed {v : Value} (h : v.Built isPrintableScalar) :
    ∀ level, v.printed.indentedChars level = v.indentedChars level := by
  induction h with
  | @leaf v h =>
    intro level
    cases v with
    | date d => simp [printed, indentedChars, scalarText]
    | moment m => simp [printed, indentedChars, scalarText]
    | list items => cases h
    | mapping members => cases h
    | _ => rfl
  | @list items _ ih =>
    intro level
    have hitems : items.map (fun v => indentedChars (level + 1) v.printed) =
        items.map (indentedChars (level + 1)) :=
      List.map_congr_left fun v hv => ih v hv (level + 1)
    rw [printed_list, indentedChars, indentedChars, indentedItems_eq_map, indentedItems_eq_map,
      List.map_map]
    exact congrArg (bracketed '[' ']' level) hitems
  | @mapping members _ ih =>
    intro level
    have hmembers : members.map (fun m => quotedChars m.1.toList ++ ':' :: ' ' ::
          indentedChars (level + 1) m.2.printed) =
        members.map fun m => quotedChars m.1.toList ++ ':' :: ' ' ::
          indentedChars (level + 1) m.2 :=
      List.map_congr_left fun m hm => by rw [ih m hm]
    rw [printed_mapping, indentedChars, indentedChars, indentedMembers_eq_map,
      indentedMembers_eq_map, List.map_map]
    exact congrArg (bracketed '{' '}' level) hmembers

/-- A value that can be printed is printed as its printed form. -/
theorem indentedJson_eq {v : Value} (h : v.Built isPrintedScalar) :
    v.indentedJson = .ok v.printed.indented := by
  have hprintable : v.Built isPrintableScalar :=
    h.mono fun _ => isPrintableScalar_of_isPrintedScalar
  rw [indentedJson, unprintable?_of_built h, indented, indented, indentedChars_printed hprintable]

/-! ## Printed scalars are read back -/

theorem trimChars_of_isWritten {cs : List Char} (h : ∀ c ∈ cs, Timestamp.isWritten c = true) :
    Text.trimChars cs = cs := by
  refine Text.trimChars_eq_self ?_ ?_
  · intro c hc
    exact Timestamp.isBlank_of_isWritten (h c (List.mem_of_mem_head? hc))
  · intro c hc
    exact Timestamp.isBlank_of_isWritten (h c (List.mem_of_getLast? hc))

theorem toMoment?_printed_date (d : Date) : (date d).printed.toMoment? = some (.ofDate d) := by
  rw [printed, toMoment?, String.toList_ofList, trimChars_of_isWritten d.forall_isWritten_text,
    Timestamp.read?_date]

theorem toMoment?_printed_moment {m : Moment} (hm : m.Readable) :
    (moment m).printed.toMoment? = some m := by
  rw [printed, toMoment?, String.toList_ofList, trimChars_of_isWritten m.forall_isWritten_text,
    Timestamp.read?_text hm]

theorem toDate?_printed_date (d : Date) : (date d).printed.toDate? = .ok (some d) := by
  have hmoment := toMoment?_printed_date d
  rw [printed] at hmoment ⊢
  rw [toDate?, hmoment]
  · rfl
  · intro d h
    cases h

/-- The moments of JSON values can be read again. -/
theorem readable_of_toMoment? {v : Value} {m : Moment} (hv : v.Built isJsonScalar)
    (h : v.toMoment? = some m) : m.Readable := by
  cases v with
  | text s => exact Timestamp.readable_of_readExact? h
  | date d =>
    cases hv with
    | leaf h => cases h
  | moment m =>
    cases hv with
    | leaf h => cases h
  | _ => cases h

/-- What a JSON value was read as is read back from its printed form. -/
theorem coerce_printed {type : String} {v w : Value} (hv : v.Built isJsonScalar)
    (h : v.coerce type = .ok w) : w.printed.coerce type = .ok w := by
  by_cases hdate : type = "date"
  · subst hdate
    rw [coerce_date] at h ⊢
    obtain ⟨d, -, rfl⟩ := exceptMap_eq_ok_iff.1 (exceptMapError_eq_ok_iff.1 h)
    cases d with
    | none => rfl
    | some d =>
      rw [Option.map_some, Option.getD_some, toDate?_printed_date]
      rfl
  by_cases hmoment : type = "datetime"
  · subst hmoment
    rw [coerce_datetime] at h ⊢
    obtain rfl := Except.ok.inj h
    cases hm : v.toMoment? with
    | none => rfl
    | some m =>
      rw [Option.map_some, Option.getD_some, toMoment?_printed_moment (readable_of_toMoment? hv hm)]
      rfl
  -- neither decimals nor any other values change when they are printed
  have hconforms := scalarConforms_of_coerce h
  have hprinted : w.printed = w := by
    rw [ScalarConforms, if_neg hdate, if_neg hmoment] at hconforms
    split at hconforms
    · rcases hconforms with rfl | ⟨s, rfl, -⟩ <;> rfl
    · rw [hconforms, printed_of_built hv]
  rw [hprinted, coerce_of_scalarConforms hconforms]

theorem readsBack_printed : ReadsBack printed fun v => v.Built isJsonScalar where
  null := rfl
  list := printed_list
  mapping := printed_mapping
  items _ h := Built.of_mem_list (fun _ => rfl) h
  members _ h := Built.of_mem_mapping (fun _ => rfl) h
  scalar type v w hv h := by
    rw [readScalar, exceptMapError_eq_ok_iff] at h ⊢
    exact coerce_printed hv h

end Value

namespace Descriptor

/-- A printed record is a fixed point: it is JSON, and projected again along its descriptor it gives
the record. Its text is the text that the record is printed as, if the payload was read and so is
within the limit on digits. -/
theorem record_of_printed {r : Registry} {maxDepth : Nat} {base : String} {shape : Shape}
    {d : Descriptor} (hresolve : r.resolve maxDepth base shape = .ok d) (hfree : d.AliasFree)
    {joiner : Option Joiner} {raw out : Value} {origin : String}
    (hraw : raw.Built Value.isJsonScalar) (hout : d.record joiner raw origin = .ok out) :
    out.printed.Built Value.isJsonScalar ∧
    (raw.Built Value.isReadScalar → out.indentedJson = .ok out.printed.indented) ∧
    ∀ joiner' origin',
      ({ d with isFlat := false } : Descriptor).record joiner' out.printed origin' = .ok out := by
  obtain ⟨v, hv, hproject⟩ := record_eq_ok_iff.1 hout
  have hbuilt := built_of_record Value.recordedAs_printable hresolve hout hraw
  refine ⟨Value.built_printed hbuilt, fun hread => Value.indentedJson_eq ?_, ?_⟩
  · exact built_of_record Value.recordedAs_printed hresolve hout hread
  obtain ⟨w, hpayload, hprinted⟩ := agree_write_of_within Value.readsBack_printed d d
    (within_refl d) (Registry.distinctKeys_of_resolve hresolve) hfree v _ out
    (built_unflattened (fun _ => rfl) hraw hv) hproject
  obtain rfl : out = w := Except.ok.inj (hproject.symm.trans (hpayload _))
  intro joiner' origin'
  exact (record_withFlat rfl origin').trans (hprinted _)

/-- The last change of a contract and the dates of its transactions. -/
def changeShape : Shape :=
  ⟨[.named "last_modified" none none (by decide),
    .named "transactions" none (some [.named "transaction_date" none none (by decide)])
      (by decide)], false, false⟩

/-- Five seconds and a half past a minute, at an offset that is no whole second. -/
def changeMoment : Moment :=
  ⟨⟨2024, 3, 15, by decide, by decide, by decide⟩,
    ⟨10, 30, 5, 500000, by decide, by decide, by decide, by decide⟩,
    some ⟨-19815250000, by decide, by decide⟩⟩

/-- The record of a contract that was changed at such a moment, with a transaction. -/
def changeRecord : Value :=
  .mapping [("last_modified", .moment changeMoment),
    ("transactions", .list [.mapping [("transaction_date",
      .date ⟨2024, 3, 14, by decide, by decide, by decide⟩)]])]

/-- The moment loses nothing in print, and the date in universal time of a transaction is not the
day of its text. -/
theorem contract_of_printed : ∃ d, Registry.builtin.resolve 2 "Contract" changeShape = .ok d ∧
    ({ d with isFlat := false } : Descriptor).record none
      (.mapping [("last_modified", .text "2024-03-15T10:30:05.500000-05:30:15.250000"),
        ("transactions", .list [.mapping [("transaction_date", .text "2024-03-14")]])]) "again" =
      .ok changeRecord := by
  have hinputs : ∃ d, Registry.builtin.resolve 2 "Contract" changeShape = .ok d ∧ d.AliasFree ∧
      d.record none (.mapping [("transactions",
          .list [.mapping [("transaction_date", .text "2024-03-15T01:00:00+02:00")]]),
        ("last_modified", .text "2024-03-15T10:30:05.5-05:30:15.25")]) "root" =
      .ok changeRecord := by
    refine ⟨_, rfl, ?_, rfl⟩
    refine .intro (by decide) (List.forall_mem_cons.2 ⟨?_, List.forall_mem_singleton.2 ?_⟩)
    · rintro _ ⟨⟩
    · rintro _ ⟨⟩
      refine .intro (by decide) (List.forall_mem_singleton.2 ?_)
      rintro _ ⟨⟩
  obtain ⟨d, hd, hfree, hout⟩ := hinputs
  refine ⟨d, hd, ?_⟩
  have htransaction : (Value.mapping [("transaction_date",
      .text "2024-03-15T01:00:00+02:00")]).Built Value.isJsonScalar :=
    .mapping (List.forall_mem_singleton.2 (.leaf rfl))
  have hraw : (Value.mapping [("transactions", .list [.mapping [("transaction_date",
      .text "2024-03-15T01:00:00+02:00")]]),
      ("last_modified", .text "2024-03-15T10:30:05.5-05:30:15.25")]).Built Value.isJsonScalar :=
    .mapping (List.forall_mem_cons.2 ⟨.list (List.forall_mem_singleton.2 htransaction),
      List.forall_mem_singleton.2 (.leaf rfl)⟩)
  exact (record_of_printed hd hfree hraw hout).2.2 none "again"

end Descriptor
end RecordProjection
