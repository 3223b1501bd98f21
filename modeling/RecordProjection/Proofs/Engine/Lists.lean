import RecordProjection.Proofs.Engine.Transparency
import RecordProjection.Proofs.Record.Relocation

/-!
# Lists of records

A request for the records of a list agrees with requests for the records of its items: it has their
results in their order, or else the first of their failures, whose place then begins with the index
of the item and not with the root. What was asked before makes no difference to any of them.
-/
namespace RecordProjection

namespace Descriptor
variable {d : Descriptor} {joiner : Option Joiner} {items : List Value}

/-- The items of a list have records when each of them has one. -/
theorem records_eq_ok_iff {outs : List Value} : d.records joiner items = .ok outs ↔
    outs.length = items.length ∧ ∀ (i : Nat) (raw : Value), items[i]? = some raw →
      ∃ out, outs[i]? = some out ∧ d.record joiner raw "root" = .ok out := by
  rw [records, mapM_zipIdx_eq_ok_iff]
  refine and_congr_right fun _ => forall₃_congr fun i raw _ => exists_congr fun out => ?_
  exact and_congr_right fun _ => record_eq_ok_iff_of_origin ("index " ++ toString i) "root"

/-- The first item of a list that has no record keeps all of them from having one. -/
theorem exists_records_eq_error {i : Nat} {raw : Value} {err : ProjectionError}
    (hraw : items[i]? = some raw)
    (hbefore : ∀ j < i, ∀ raw', items[j]? = some raw' →
      ∃ out, d.record joiner raw' "root" = .ok out)
    (h : d.record joiner raw "root" = .error err) :
    ∃ err', d.records joiner items = .error err' ∧
      ProjectionError.Alike "root" ("index " ++ toString i) err err' := by
  obtain ⟨err', herr', halike⟩ := exists_record_eq_error h ("index " ++ toString i)
  refine ⟨err', mapM_zipIdx_eq_error hraw ?_ herr', halike⟩
  intro j hj raw' hraw'
  obtain ⟨out, hout⟩ := hbefore j hj raw' hraw'
  exact ⟨out, (record_eq_ok_iff_of_origin "root" ("index " ++ toString j)).1 hout⟩

end Descriptor

namespace Engine

section Described
variable {e : Engine} {m : Memory} {model : String} {input : ShapeInput}
  {flat flatLists : Option Bool} {result : Except Failure Descriptor}
  (hm : Faithful e m)
  (hresult : (plainShape input flat flatLists).bind (e.plainDescriptor model) = result)
include hm hresult

theorem describe_result : (e.describe m model input flat flatLists).result = result := by
  rw [(gives_describe hm model input flat flatLists).result_eq, hresult]

theorem one_result (raw : Value) : (e.one m model input flat flatLists raw).result =
    result.bind fun d => (d.record e.joiner raw "root").mapError .ofProjection := by
  rw [one, ((gives_describe hm model input flat flatLists).mapResult _).result_eq, hresult]

theorem list_result (raw : Value) : (e.list m model input flat flatLists raw).result =
    result.bind fun d =>
      (itemsOf raw).bind fun items => (d.records e.joiner items).mapError .ofProjection := by
  rw [list, ((gives_describe hm model input flat flatLists).mapResult _).result_eq, hresult]

end Described

/-- The records of a list are the records of its items, whatever was asked before each request. A
shape that has no descriptor fails for the list as it does for each item, and for no items at all.
Otherwise the list has records exactly when all its items have one, and these are its records, in
their order; and it fails as the first item that fails, with the place of the failure beginning with
the index of that item. -/
theorem list_agrees_with_one (e : Engine) (before : List Request) (history : Nat → List Request)
    (model : String) (input : ShapeInput) (flat flatLists : Option Bool) (items : List Value) :
    let m := e.memoryAfter e.freshMemory before
    let described := (e.describe m model input flat flatLists).result
    let records := (e.list m model input flat flatLists (.list items)).result
    let record := fun (i : Nat) (raw : Value) =>
      (e.one (e.memoryAfter e.freshMemory (history i)) model input flat flatLists raw).result
    (∀ failure, described = .error failure →
      records = .error failure ∧ ∀ i raw, record i raw = .error failure) ∧
    ∀ d, described = .ok d →
      (∀ outs, records = .ok outs ↔ outs.length = items.length ∧
        ∀ i raw, items[i]? = some raw → ∃ out, outs[i]? = some out ∧ record i raw = .ok out) ∧
      ∀ i raw failure, items[i]? = some raw → record i raw = .error failure →
        (∀ j < i, ∀ raw', items[j]? = some raw' → ∃ out, record j raw' = .ok out) →
        ∃ err err', failure = .ofProjection err ∧ records = .error (.ofProjection err') ∧
          ProjectionError.Alike "root" ("index " ++ toString i) err err' := by
  intro m described records record
  obtain ⟨result, hresult⟩ : ∃ result,
    (plainShape input flat flatLists).bind (e.plainDescriptor model) = result := ⟨_, rfl⟩
  have hfaithful (requests : List Request) : Faithful e (e.memoryAfter e.freshMemory requests) :=
    faithful_memoryAfter (faithful_freshMemory e) requests
  have hdescribed : described = result := describe_result (hfaithful before) hresult
  have hrecords : records = result.bind fun d =>
      (d.records e.joiner items).mapError .ofProjection :=
    list_result (hfaithful before) hresult (.list items)
  have hrecord (i : Nat) (raw : Value) : record i raw = result.bind fun d =>
      (d.record e.joiner raw "root").mapError .ofProjection :=
    one_result (hfaithful (history i)) hresult raw
  refine ⟨?_, ?_⟩
  · intro failure hfailure
    obtain rfl : result = .error failure := hdescribed.symm.trans hfailure
    exact ⟨hrecords, hrecord⟩
  · intro d hd
    obtain rfl : result = .ok d := hdescribed.symm.trans hd
    have hrecord_ok (i : Nat) (raw out : Value) :
        record i raw = .ok out ↔ d.record e.joiner raw "root" = .ok out := by
      rw [hrecord]
      exact exceptMapError_eq_ok_iff
    refine ⟨?_, ?_⟩
    · intro outs
      simp only [hrecord_ok]
      rw [hrecords, ← Descriptor.records_eq_ok_iff]
      exact exceptMapError_eq_ok_iff
    · intro i raw failure hraw hfailure hbefore
      rw [hrecord] at hfailure
      obtain ⟨err, herr, rfl⟩ := exceptMapError_eq_error_iff.1 hfailure
      simp only [hrecord_ok] at hbefore
      obtain ⟨err', herr', halike⟩ := Descriptor.exists_records_eq_error hraw hbefore herr
      refine ⟨err, err', rfl, ?_, halike⟩
      rw [hrecords]
      exact exceptMapError_eq_error_iff.2 ⟨err', herr', rfl⟩

end Engine
end RecordProjection
