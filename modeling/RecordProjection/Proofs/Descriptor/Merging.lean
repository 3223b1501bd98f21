import RecordProjection.Proofs.Descriptor.Building
import RecordProjection.Schema.Builtin

/-!
# Fields of the same key

The fields of a level are what its requests resolve to, one after the other, with each key once: in
the place of its first field, and with its last field as a whole. Two lists of requests put together
give the fields of the first, updated in place by those of the second.

## Main definitions

* `updateByKey` : fields updated by others that may have the same keys.
-/
namespace RecordProjection

/-- Fields updated by others, one after the other: each takes the place of the one with its key, or
else goes to the end. -/
def updateByKey (fields more : List ResolvedField) : List ResolvedField :=
  ((more.map fun f => (f.key, f)).foldl (fun es p => Entries.insert p.1 p.2 es)
    (fields.map fun f => (f.key, f))).map Prod.snd

/-- The keys of merged fields stand in the order of their first fields. -/
theorem keys_mergeByKey (fields : List ResolvedField) :
    (mergeByKey fields).map ResolvedField.key = (fields.map ResolvedField.key).eraseDups := by
  rw [← keys_keyed, ← ofList_keyed, Entries.keys_ofList, keys_keyed]

/-- A merged field is the last one of its key. -/
theorem mem_mergeByKey_iff {fields : List ResolvedField} {f : ResolvedField} :
    f ∈ mergeByKey fields ↔
      ∃ before after, fields = before ++ f :: after ∧ ∀ g ∈ after, g.key ≠ f.key := by
  have hkeyed : f ∈ mergeByKey fields ↔
      (f.key, f) ∈ Entries.ofList (fields.map fun f => (f.key, f)) := by
    rw [ofList_keyed, List.mem_map]
    constructor
    · intro h
      exact ⟨f, h, rfl⟩
    · rintro ⟨g, hg, heq⟩
      exact (Prod.mk.inj heq).2 ▸ hg
  rw [hkeyed, Entries.mem_ofList_iff_last]
  constructor
  · rintro ⟨before, after, hsplit, hafter⟩
    obtain ⟨before, rest, rfl, rfl, hrest⟩ := List.map_eq_append_iff.1 hsplit
    obtain ⟨g, after, rfl, heq, rfl⟩ := List.map_eq_cons_iff.1 hrest
    obtain rfl : g = f := (Prod.mk.inj heq).2
    rw [keys_keyed] at hafter
    refine ⟨before, after, rfl, ?_⟩
    intro h hh heq
    exact hafter (List.mem_map.2 ⟨h, hh, heq⟩)
  · rintro ⟨before, after, rfl, hafter⟩
    refine ⟨before.map fun f => (f.key, f), after.map fun f => (f.key, f), by simp, ?_⟩
    rw [keys_keyed]
    intro h
    obtain ⟨g, hg, heq⟩ := List.mem_map.1 h
    exact hafter g hg heq

/-- Fields put together are merged to those of the first list, updated by those of the second. -/
theorem mergeByKey_append (fields more : List ResolvedField) :
    mergeByKey (fields ++ more) = updateByKey (mergeByKey fields) (mergeByKey more) := by
  rw [updateByKey, ← ofList_keyed, ← ofList_keyed, ← Entries.ofList_append, ← List.map_append,
    mergeByKey]

namespace Registry

/-- Requests put together give the fields of the first ones, updated by those of the others. -/
theorem fieldsAt_append {r : Registry} {maxDepth : Nat} {path : List String} {target : String}
    {specs specs' : List FieldSpec} {fields fields' : List ResolvedField}
    (h : r.fieldsAt maxDepth path target specs = .ok fields)
    (h' : r.fieldsAt maxDepth path target specs' = .ok fields') :
    r.fieldsAt maxDepth path target (specs ++ specs') = .ok (updateByKey fields fields') := by
  obtain ⟨m, built, hm, hhas, hbuilt, rfl⟩ := fieldsAt_eq_ok_iff.1 h
  obtain ⟨m', built', hm', hhas', hbuilt', rfl⟩ := fieldsAt_eq_ok_iff.1 h'
  obtain rfl : m = m' := Option.some.inj (hm.symm.trans hm')
  refine fieldsAt_eq_ok_iff.2
    ⟨m, built ++ built', hm, ?_, ?_, (mergeByKey_append built built').symm⟩
  · exact List.forall_mem_append.2 ⟨hhas, hhas'⟩
  · rw [Model.requested, List.flatMap_append]
    exact List.rel_append hbuilt hbuilt'

/-- Where keys are used twice, the first place and the last value count. On every level, with a
wildcard standing for all fields in the order of their declaration, the fields are the requested
ones with each key once: the keys stand in the order of their first fields, and the field of a key
is the last one that has it. Requests put together give the fields of the first ones, updated by
those of the others. The outermost level is one of these levels, and so are those behind lists. -/
theorem first_place_last_value (r : Registry) (maxDepth : Nat) :
    (∀ path target specs fields, r.fieldsAt maxDepth path target specs = .ok fields →
      ∃ m built, r.find? target = some m ∧
        List.Forall₂ (fun p f => r.Builds maxDepth path p.1 p.2 f) (m.requested specs) built ∧
        fields.map ResolvedField.key = (built.map ResolvedField.key).eraseDups ∧
        (fields.map ResolvedField.key).Nodup ∧
        ∀ f, f ∈ fields ↔
          ∃ before after, built = before ++ f :: after ∧ ∀ g ∈ after, g.key ≠ f.key) ∧
    (∀ path target specs specs' fields fields',
      r.fieldsAt maxDepth path target specs = .ok fields →
      r.fieldsAt maxDepth path target specs' = .ok fields' →
      r.fieldsAt maxDepth path target (specs ++ specs') = .ok (updateByKey fields fields')) ∧
    ∀ base shape, r.resolve maxDepth base shape =
      (r.fieldsAt maxDepth [base] base shape.fields).map
        fun fields => ⟨base, fields, shape.isFlat, shape.isFlatLists⟩ := by
  refine ⟨?_, fun _ _ _ _ _ _ => fieldsAt_append, resolve_eq_fieldsAt⟩
  intro path target specs fields h
  obtain ⟨m, built, hm, -, hbuilt, rfl⟩ := fieldsAt_eq_ok_iff.1 h
  exact ⟨m, built, hm, hbuilt, keys_mergeByKey built, nodup_keys_mergeByKey built,
    fun f => mem_mergeByKey_iff⟩

/-- A department with its name put under the key of its code: the code itself, which comes later,
has the last word there. An abbreviation put under the name then takes the place of the name. -/
theorem departments_first_place_last_value : ∃ fields fields',
    builtin.fieldsAt 1 ["Department"] "Department"
      [.named "name" (some "code") none (by decide), .all] = .ok fields ∧
    builtin.fieldsAt 1 ["Department"] "Department"
      [.named "abbreviation" (some "name") none (by decide)] = .ok fields' ∧
    fields.map (fun f => (f.key, f.source.name)) =
      [("code", "code"), ("name", "name"), ("abbreviation", "abbreviation")] ∧
    (∃ built, List.Forall₂ (fun p f => builtin.Builds 1 ["Department"] p.1 p.2 f)
        (Model.department.requested [.named "name" (some "code") none (by decide), .all]) built ∧
      fields.map ResolvedField.key = (built.map ResolvedField.key).eraseDups) ∧
    (updateByKey fields fields').map (fun f => (f.key, f.source.name)) =
      [("code", "code"), ("name", "abbreviation"), ("abbreviation", "abbreviation")] ∧
    builtin.fieldsAt 1 ["Department"] "Department"
      ([.named "name" (some "code") none (by decide), .all] ++
        [.named "abbreviation" (some "name") none (by decide)]) =
          .ok (updateByKey fields fields') := by
  obtain ⟨hlevel, happend, -⟩ := first_place_last_value builtin 1
  refine ⟨_, _, rfl, rfl, rfl, ?_, rfl, happend _ _ _ _ _ _ rfl rfl⟩
  obtain ⟨m, built, hm, hbuilt, hkeys, -⟩ := hlevel ["Department"] "Department"
    [.named "name" (some "code") none (by decide), .all] _ rfl
  obtain rfl : m = Model.department := Option.some.inj (hm.symm.trans rfl)
  exact ⟨built, hbuilt, hkeys⟩

end Registry
end RecordProjection
