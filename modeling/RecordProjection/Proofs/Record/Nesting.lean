import RecordProjection.Proofs.Descriptor.Building
import RecordProjection.Proofs.Descriptor.Depth
import RecordProjection.Proofs.Record.Relocation
import RecordProjection.Schema.Builtin

/-!
# Nested requests

A list in parentheses behind a field is resolved like a list of its own that is applied to the
record type of the field's value, and read like one: what it gives stands under the field, and an
error stands behind it.

## Main definitions

* `ResolvedField.reading` : a field without the request that it goes back to.
-/
namespace RecordProjection

/-! ## Fields without their requests -/

namespace ResolvedField

/-- A field without the request that it goes back to: where its value comes from, its key, and the
descriptor of its value. -/
def reading (f : ResolvedField) : FieldSchema × String × Option Descriptor :=
  (f.source, f.key, f.nested)

/-- The request of a field has no part in its value. -/
theorem project_eq_of_reading {f g : ResolvedField} (h : f.reading = g.reading) (model : String)
    (v : Value) (l : Location) : f.project model v l = g.project model v l := by
  obtain ⟨hsource, hkey, hnested⟩ : f.source = g.source ∧ f.key = g.key ∧ f.nested = g.nested := by
    simpa [reading] using h
  cases hf : f.nested with
  | none =>
    rw [project_of_nested_none hf, project_of_nested_none (hnested.symm.trans hf), hsource]
  | some n =>
    rw [project_of_nested_some hf, project_of_nested_some (hnested.symm.trans hf), hsource]

theorem rows_eq_of_reading {model : String} {members : Members} {l : Location}
    {fs gs : List ResolvedField} (h : fs.map reading = gs.map reading) :
    rows model members l fs = rows model members l gs := by
  rw [← List.forall₂_eq_eq_eq, List.forall₂_map_left_iff, List.forall₂_map_right_iff] at h
  refine rows_eq_of_forall₂ (h.imp fun f g hfg => ?_)
  obtain ⟨hsource, hkey, -⟩ : f.source = g.source ∧ f.key = g.key ∧ f.nested = g.nested := by
    simpa [reading] using hfg
  exact ⟨hsource, hkey, project_eq_of_reading hfg model⟩

end ResolvedField

/-- Merging goes by the keys alone. -/
theorem map_reading_mergeByKey (fields : List ResolvedField) :
    (mergeByKey fields).map ResolvedField.reading =
      (Entries.ofList ((fields.map ResolvedField.reading).map fun p => (p.2.1, p))).map
        Prod.snd := by
  have hpairs : (fields.map ResolvedField.reading).map (fun p => (p.2.1, p)) =
      (fields.map fun f => (f.key, f)).map fun p => (p.1, p.2.reading) := by
    simp [ResolvedField.reading]
  rw [hpairs, Entries.ofList_map, mergeByKey]
  simp

/-- The requests of its fields have no part in the walk along a descriptor. -/
theorem Descriptor.project_eq_of_reading {d d' : Descriptor} (hmodel : d.model = d'.model)
    (hfields : d.fields.map ResolvedField.reading = d'.fields.map ResolvedField.reading)
    (v : Value) (l : Location) : d.project v l = d'.project v l := by
  rcases v.mapping_or_not with ⟨members, rfl⟩ | hv
  · rw [project_mapping, project_mapping, hmodel, ResolvedField.rows_eq_of_reading hfields]
  · rw [project_of_not_mapping d hv, project_of_not_mapping d' hv, hmodel]

/-! ## Resolving below a field -/

namespace Registry

section Below
variable {r : Registry} {maxDepth : Nat} {base target name : String} {m : Model}
  {source : FieldSchema} {specs : List FieldSpec} {outer inner : Descriptor}

/-- A shape that asks for one field, and for fields of its value, has the one field, with what the
list behind it resolves to. -/
theorem nested_of_resolve (hbase : r.find? base = some m) (hfield : m.field? name = some source)
    (htarget : source.target? = some target) (hne : specs ≠ []) {h : name ≠ "*"}
    {isFlat isFlatLists : Bool}
    (houter : r.resolve maxDepth base ⟨[.named name none (some specs) h], isFlat, isFlatLists⟩ =
      .ok outer) :
    ∃ f fields, outer.fields = [f] ∧ outer.isFlat = isFlat ∧ f.source = source ∧ f.key = name ∧
      f.nested = some ⟨target, fields, false, false⟩ ∧
      r.innerFields target specs (fun m => r.resolveSpecs maxDepth [base, target] m specs) =
        .ok fields := by
  have hname : source.name = name := by simpa using List.find?_some hfield
  obtain ⟨m', hm', houter⟩ := exceptBind_eq_ok_iff.1 houter
  obtain rfl : m = m' := Option.some.inj (hbase.symm.trans (model_eq_ok_iff.1 hm'))
  obtain ⟨found, hfound, houter⟩ := exceptBind_eq_ok_iff.1 houter
  obtain rfl := Except.ok.inj houter
  rw [resolveSpecs_singleton, resolveSpec_named ((field_eq_ok_iff (find?_name hbase)).2 hfield)]
    at hfound
  obtain ⟨f, hf, rfl⟩ := exceptMap_eq_ok_iff.1 hfound
  obtain ⟨⟨target', path⟩, fields, hnext, hinner, rfl⟩ := (resolveAt_eq_ok_iff rfl hne).1 hf
  obtain ⟨htarget', -, hpath⟩ := descend_eq_ok_iff.1 hnext
  obtain rfl : target = target' := Option.some.inj (htarget.symm.trans htarget')
  obtain rfl : path = [base, target] := hpath
  exact ⟨_, fields, rfl, rfl, rfl, hname, rfl, hinner⟩

/-- What a list resolves to behind a field is what it resolves to on its own, up to the requests
that its fields go back to. -/
theorem map_reading_of_innerFields {fields : List ResolvedField} {isFlat isFlatLists : Bool}
    (hlone : ∀ label inside, specs = [.wildcard label (some inside)] → inside = [])
    (hfields : r.innerFields target specs
      (fun m => r.resolveSpecs maxDepth [base, target] m specs) = .ok fields)
    (hinner : r.resolve maxDepth target ⟨specs, isFlat, isFlatLists⟩ = .ok inner) :
    inner.model = target ∧ inner.isFlat = isFlat ∧
      fields.map ResolvedField.reading = inner.fields.map ResolvedField.reading := by
  obtain ⟨m, hm, hinner⟩ := exceptBind_eq_ok_iff.1 hinner
  obtain ⟨own, hown, hinner⟩ := exceptBind_eq_ok_iff.1 hinner
  obtain rfl := Except.ok.inj hinner
  refine ⟨rfl, rfl, ?_⟩
  by_cases hwildcard : ∃ label nested, specs = [.wildcard label nested]
  · -- a wildcard on its own: a plain one behind a field, and as good as a plain one on its own
    obtain ⟨label, nested, rfl⟩ := hwildcard
    have hempty : ∀ inside ∈ nested, inside = [] := by
      rintro inside rfl
      exact hlone label inside rfl
    obtain ⟨m', hm', rfl⟩ := exceptMap_eq_ok_iff.1 hfields
    obtain rfl : m = m' := Except.ok.inj (hm.symm.trans hm')
    have hleaves : own = m.fields.map (leaf (.wildcard label nested)) := by
      rw [resolveSpecs_singleton, resolveSpec_wildcard hempty] at hown
      exact (Except.ok.inj hown).symm
    have hrequest : (m.fields.map (leaf .all)).map ResolvedField.reading =
        (m.fields.map (leaf (.wildcard label nested))).map ResolvedField.reading := by
      simp [ResolvedField.reading, leaf, FieldSpec.all, FieldSpec.alias?]
    rw [hleaves, map_reading_mergeByKey, map_reading_mergeByKey, hrequest]
  · have hother (label : String) (nested : Option (List FieldSpec)) :
        specs ≠ [.wildcard label nested] := fun h => hwildcard ⟨label, nested, h⟩
    rw [innerFields.eq_2 _ _ _ _ hother] at hfields
    obtain ⟨m', hm', hfields⟩ := exceptBind_eq_ok_iff.1 hfields
    obtain rfl : m = m' := Except.ok.inj (hm.symm.trans hm')
    obtain ⟨found, hfound, hfields⟩ := exceptBind_eq_ok_iff.1 hfields
    obtain rfl := Except.ok.inj hfields
    -- on its own the list has more room below it
    have hroom : maxDepth + [target].length ≤ maxDepth + [base, target].length := by simp
    have hsame := (unlessTooDeep_resolveSpecs hroom m specs).eq_ok hfound
    obtain rfl : own = found := Except.ok.inj (hown.symm.trans hsame)
    rfl

end Below

end Registry

/-! ## Reading below a field -/

namespace Descriptor

/-- A mapping of one member, along a descriptor with the one field that asks for it. -/
theorem project_single {d : Descriptor} {f : ResolvedField} (hfields : d.fields = [f]) (v : Value)
    (l : Location) : d.project (.mapping [(f.source.name, v)]) l =
      (f.project d.model v (l.member f.source.name)).map fun w => .mapping [(f.key, w)] := by
  have hv : Entries.get? f.source.name [(f.source.name, v)] = some v := by simp [Entries.get?]
  rw [project_mapping, hfields, ResolvedField.rows_cons_of_present hv]
  cases f.project d.model v (l.member f.source.name) <;> rfl

end Descriptor

/-- A member of a record, in words. -/
theorem Location.text_member_start (origin name : String) :
    ((start origin).member name).text = origin ++ "." ++ name :=
  String.append_assoc.symm

/-- An item of a member of a record, in words. -/
theorem Location.text_item_member_start (origin name : String) (i : Nat) :
    (((start origin).member name).item i).text =
      origin ++ "." ++ name ++ "[" ++ toString i ++ "]" := by
  change origin ++ ("." ++ name) ++ ("[" ++ toString i ++ "]") = _
  rw [← String.append_assoc, ← String.append_assoc, ← String.append_assoc]

section Reading
variable {outer n inner : Descriptor} {f : ResolvedField} (hfields : outer.fields = [f])
  (hnested : f.nested = some n) (hmodel : n.model = inner.model)
  (hreading : n.fields.map ResolvedField.reading = inner.fields.map ResolvedField.reading)
  (houter : outer.isFlat = false) (hinner : inner.isFlat = false) (joiner : Option Joiner)
include hfields hnested hmodel hreading houter hinner

/-- A record under a field is what the list behind the field gives for it on its own. -/
theorem record_of_nested (hl : f.source.isList = false) (members : Members) :
    (∀ w, outer.record joiner (.mapping [(f.source.name, .mapping members)]) "root" = .ok w ↔
      ∃ u, inner.record joiner (.mapping members) "root" = .ok u ∧ w = .mapping [(f.key, u)]) ∧
    ∀ e, outer.record joiner (.mapping [(f.source.name, .mapping members)]) "root" = .error e →
      ∃ e', inner.record joiner (.mapping members) "root" = .error e' ∧
        ProjectionError.Alike ("root" ++ "." ++ f.source.name) "root" e e' := by
  have hsame := Descriptor.project_eq_of_reading hmodel hreading
  have hthere : inner.record joiner (.mapping members) "root" =
      (inner.project (.mapping members) (.start "")).mapError (·.under (.start "root")) := by
    rw [Descriptor.record_eq_project hinner, inner.project_eq_mapError _ _ ""]
  have hhere : outer.record joiner (.mapping [(f.source.name, .mapping members)]) "root" =
      ((inner.project (.mapping members) (.start "")).mapError
        (·.under ((Location.start "root").member f.source.name))).map
          fun w => .mapping [(f.key, w)] := by
    rw [Descriptor.record_eq_project houter, Descriptor.project_single hfields,
      ResolvedField.project_of_nested_some hnested, readNested_mapping hl, hsame,
      inner.project_eq_mapError _ _ ""]
  rw [hhere, hthere, ← Location.text_member_start]
  cases inner.project (.mapping members) (.start "") with
  | ok u => simp [Except.map, Except.mapError, eq_comm]
  | error e => simpa [Except.map, Except.mapError] using e.alike_under _ (.start "root")

/-- Records in a list under a field are what the list behind the field gives for them on its own. -/
theorem records_of_nested (hl : f.source.isList = true) (items : List Value) :
    (∀ w, outer.record joiner (.mapping [(f.source.name, .list items)]) "root" = .ok w ↔
      ∃ us, inner.records joiner items = .ok us ∧ w = .mapping [(f.key, .list us)]) ∧
    ∀ e, outer.record joiner (.mapping [(f.source.name, .list items)]) "root" = .error e →
      ∃ i < items.length, ∃ e', inner.records joiner items = .error e' ∧
        ProjectionError.Alike ("root" ++ "." ++ f.source.name ++ "[" ++ toString i ++ "]")
          ("index " ++ toString i) e e' := by
  have hsame := Descriptor.project_eq_of_reading hmodel hreading
  have hthere : inner.records joiner items = items.zipIdx.mapM fun p =>
      (inner.project p.1 (.start "")).mapError (·.under (.start ("index " ++ toString p.2))) := by
    rw [Descriptor.records]
    congr 1
    funext p
    exact (Descriptor.record_eq_project hinner joiner p.1 _).trans
      (inner.project_eq_mapError p.1 _ "")
  have hhere : outer.record joiner (.mapping [(f.source.name, .list items)]) "root" =
      ((items.zipIdx.mapM fun p => (inner.project p.1 (.start "")).mapError
        (·.under (((Location.start "root").member f.source.name).item p.2))).map .list).map
          fun w => .mapping [(f.key, w)] := by
    rw [Descriptor.record_eq_project houter, Descriptor.project_single hfields,
      ResolvedField.project_of_nested_some hnested, readNested_list hl]
    congr 3
    funext p
    exact (hsame p.1 _).trans (inner.project_eq_mapError p.1 _ "")
  rw [hhere, hthere]
  rcases exists_of_mapM_mapError
    (fun p e => e.under (((Location.start "root").member f.source.name).item p.2))
    (fun p e => e.under (.start ("index " ++ toString p.2)))
    (fun p => inner.project p.1 (.start "")) items.zipIdx with
    ⟨us, hus, hus'⟩ | ⟨⟨item, i⟩, hmem, e, -, he, he'⟩
  · rw [hus, hus']
    simp [Except.map, eq_comm]
  · rw [he, he']
    refine ⟨by simp [Except.map], ?_⟩
    intro e₁ he₁
    obtain rfl := Except.error.inj he₁
    have hi : i < items.length := by simpa using (List.mem_zipIdx hmem).2.1
    refine ⟨i, hi, _, rfl, ?_⟩
    rw [← Location.text_item_member_start]
    exact e.alike_under _ (.start _)

end Reading

namespace Registry

/-- Nesting is compositional: a list behind a field is resolved to what it is resolved to on its
own, and gives under the field what it gives on its own, for a record and for a list of records
alike. Where it fails, the place of the error has another front, and that is all. -/
theorem nesting_commutes {r : Registry} {maxDepth : Nat} {base target name : String} {m : Model}
    {source : FieldSchema} {specs : List FieldSpec} {h : name ≠ "*"}
    {isFlat isFlatLists isFlat' isFlatLists' : Bool} {outer inner : Descriptor}
    (hbase : r.find? base = some m) (hfield : m.field? name = some source)
    (htarget : source.target? = some target) (hne : specs ≠ [])
    (hlone : ∀ label inside, specs = [.wildcard label (some inside)] → inside = [])
    (houter : r.resolve maxDepth base ⟨[.named name none (some specs) h], isFlat, isFlatLists⟩ =
      .ok outer)
    (hinner : r.resolve maxDepth target ⟨specs, isFlat', isFlatLists'⟩ = .ok inner) :
    (∃ f n, outer.fields = [f] ∧ f.source = source ∧ f.key = name ∧ f.nested = some n ∧
      n.model = inner.model ∧
      n.fields.map ResolvedField.reading = inner.fields.map ResolvedField.reading) ∧
    (isFlat = false → isFlat' = false → ∀ joiner,
      (source.isList = false → ∀ members,
        (∀ w, outer.record joiner (.mapping [(name, .mapping members)]) "root" = .ok w ↔
          ∃ u, inner.record joiner (.mapping members) "root" = .ok u ∧ w = .mapping [(name, u)]) ∧
        ∀ e, outer.record joiner (.mapping [(name, .mapping members)]) "root" = .error e →
          ∃ e', inner.record joiner (.mapping members) "root" = .error e' ∧
            ProjectionError.Alike ("root" ++ "." ++ name) "root" e e') ∧
      (source.isList = true → ∀ items,
        (∀ w, outer.record joiner (.mapping [(name, .list items)]) "root" = .ok w ↔
          ∃ us, inner.records joiner items = .ok us ∧ w = .mapping [(name, .list us)]) ∧
        ∀ e, outer.record joiner (.mapping [(name, .list items)]) "root" = .error e →
          ∃ i < items.length, ∃ e', inner.records joiner items = .error e' ∧
            ProjectionError.Alike ("root" ++ "." ++ name ++ "[" ++ toString i ++ "]")
              ("index " ++ toString i) e e')) := by
  obtain ⟨f, fields, hfields, hflat, rfl, hkey, hnested, hbelow⟩ :=
    nested_of_resolve hbase hfield htarget hne houter
  obtain ⟨hmodel, hflat', hreading⟩ := map_reading_of_innerFields hlone hbelow hinner
  have hname : f.source.name = name := by simpa using List.find?_some hfield
  refine ⟨⟨f, _, hfields, rfl, hkey, hnested, hmodel.symm, hreading⟩, ?_⟩
  rintro rfl rfl joiner
  have hrecord := record_of_nested hfields hnested hmodel.symm hreading hflat hflat' joiner
  have hrecords := records_of_nested hfields hnested hmodel.symm hreading hflat hflat' joiner
  rw [hkey, hname] at hrecord hrecords
  exact ⟨hrecord, hrecords⟩

/-- What kind of transaction it is. -/
def transactionShape : Shape := ⟨[.named "action_type" none none (by decide)], false, false⟩

/-- The transactions of a contract give what they give on their own. -/
theorem transactions_commute : ∃ outer inner : Descriptor,
    builtin.resolve 2 "Contract" ⟨[.named "transactions" none (some transactionShape.fields)
      (by decide)], false, false⟩ = .ok outer ∧
    builtin.resolve 2 "Transaction" transactionShape = .ok inner ∧
    ∀ w, outer.record none (.mapping [("transactions", .list [.mapping [("action_type", .int 1)],
        .null])]) "root" = .ok w ↔
      ∃ us, inner.records none [.mapping [("action_type", .int 1)], .null] = .ok us ∧
        w = .mapping [("transactions", .list us)] := by
  have hbase : builtin.find? "Contract" = some Model.contract := rfl
  have hfield : Model.contract.field? "transactions" =
      some (.listOf "transactions" "Transaction") := rfl
  have hresolve : ∃ outer inner, builtin.resolve 2 "Contract" ⟨[.named "transactions" none
      (some transactionShape.fields) (by decide)], false, false⟩ = .ok outer ∧
      builtin.resolve 2 "Transaction" transactionShape = .ok inner := ⟨_, _, rfl, rfl⟩
  obtain ⟨outer, inner, houter, hinner⟩ := hresolve
  have hcommutes := nesting_commutes hbase hfield rfl (by decide) (by simp [transactionShape])
    houter hinner
  exact ⟨outer, inner, houter, hinner, ((hcommutes.2 rfl rfl none).2 rfl _).1⟩

end Registry
end RecordProjection
