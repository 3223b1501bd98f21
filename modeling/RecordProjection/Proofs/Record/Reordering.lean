import RecordProjection.Proofs.Descriptor.Levels
import RecordProjection.Proofs.Record.Paths
import RecordProjection.Proofs.Record.Walk

/-!
# The order of members

A projection reads members by their keys, so values that differ in the order of members alone are
projected alike: the walk takes the same way along both and stops at the same obstacle, and the
records have the same keys in the same order at every level. Only inside a value whose own fields
are not asked for can the difference be seen.

## Main definitions

* `Value.Reordered` : two values are the same up to the order of members.
* `Descriptor.Alike` : two records are the same up to the order of members inside values whose own
  fields are not asked for.
* `SameOutcome` : two results are related, or the same error.
-/
namespace RecordProjection

/-- Two values are the same up to the order of the members of mappings. -/
inductive Value.Reordered : Value → Value → Prop
  | refl (v : Value) : Reordered v v
  | mapping {members members' : Members}
      (keys : ∀ key, Entries.get? key members = none ↔ Entries.get? key members' = none)
      (values : ∀ key v w, Entries.get? key members = some v → Entries.get? key members' = some w →
        Reordered v w) :
      Reordered (.mapping members) (.mapping members')

/-- What holds of a value when it holds of the values of its members holds of all values. -/
theorem Value.induction_members {P : Value → Prop}
    (step : ∀ v, (∀ members, v = .mapping members → ∀ m ∈ members, P m.2) → P v) (v : Value) :
    P v :=
  step v fun _ _ m _ => induction_members step m.2
termination_by sizeOf v
decreasing_by
  rename_i members hv hm
  have hmem := List.sizeOf_lt_of_mem hm
  obtain ⟨key, u⟩ := m
  simp only [hv, Value.mapping.sizeOf_spec]
  simp only [Prod.mk.sizeOf_spec] at hmem
  omega

/-- Values with the same things at the ends of all paths, mappings aside, are the same up to the
order of members. -/
theorem Value.reordered_of_at? (v : Value) : ∀ w : Value,
    (∀ path, v.at? path = w.at? path ∨
      ∃ inner inner', v.at? path = some (.mapping inner) ∧ w.at? path = some (.mapping inner')) →
    v.Reordered w := by
  induction v using Value.induction_members with
  | step v ih =>
    intro w h
    rcases h [] with heq | ⟨members, members', hv, hw⟩
    · rw [at?_nil, at?_nil, Option.some.injEq] at heq
      exact heq ▸ .refl v
    · rw [at?_nil, Option.some.injEq] at hv hw
      subst hv hw
      refine .mapping ?_ ?_
      · intro key
        have hkey := h [key]
        rw [at?_singleton, at?_singleton] at hkey
        rcases hkey with heq | ⟨inner, inner', hv, hw⟩
        · rw [heq]
        · rw [hv, hw]
          simp
      · intro key u x hu hx
        refine ih members rfl (key, u) (Entries.mem_of_get? hu) x ?_
        intro path
        have hpath := h (key :: path)
        rwa [at?_cons, at?_cons, hu, hx, Option.bind_some, Option.bind_some] at hpath

/-! ## Outcomes -/

/-- Two results are related, or the same error. -/
inductive SameOutcome {α : Type} (R : α → α → Prop) :
    Except ProjectionError α → Except ProjectionError α → Prop
  | results {a b : α} (h : R a b) : SameOutcome R (.ok a) (.ok b)
  | failures (e : ProjectionError) : SameOutcome R (.error e) (.error e)

namespace SameOutcome
variable {α β : Type} {R : α → α → Prop} {S : β → β → Prop} {x y : Except ProjectionError α}

theorem refl (hR : ∀ a, R a a) (x : Except ProjectionError α) : SameOutcome R x x := by
  cases x with
  | error e => exact .failures e
  | ok a => exact .results (hR a)

theorem mono {R' : α → α → Prop} (h : SameOutcome R x y) (hR : ∀ a b, R a b → R' a b) :
    SameOutcome R' x y := by
  cases h with
  | results h => exact .results (hR _ _ h)
  | failures e => exact .failures e

theorem map {f : α → β} (h : SameOutcome R x y) (hf : ∀ a b, R a b → S (f a) (f b)) :
    SameOutcome S (x.map f) (y.map f) := by
  cases h with
  | results h => exact .results (hf _ _ h)
  | failures e => exact .failures e

theorem bind {f g : α → Except ProjectionError β} (h : SameOutcome R x y)
    (hfg : ∀ a b, R a b → SameOutcome S (f a) (g b)) : SameOutcome S (x >>= f) (y >>= g) := by
  cases h with
  | results h => exact hfg _ _ h
  | failures e => exact .failures e

end SameOutcome

/-! ## Records -/

mutual

/-- Two records of a descriptor are the same up to the order of members inside values whose own
fields are not asked for. -/
inductive Descriptor.Alike : Descriptor → Value → Value → Prop
  | same {d : Descriptor} (v : Value) : Descriptor.Alike d v v
  | records {d : Descriptor} {entries entries' : Members}
      (keys : Entries.keys entries = Entries.keys entries')
      (values : ∀ p ∈ entries.zip entries',
        ResolvedField.AlikeUnder d.fields p.1.1 p.1.2 p.2.2) :
      Descriptor.Alike d (.mapping entries) (.mapping entries')

/-- Two values that a field gives are the same up to that order. -/
inductive ResolvedField.Alike : ResolvedField → Value → Value → Prop
  | unprojected {f : ResolvedField} {v w : Value} (plain : f.nested = none) (h : v.Reordered w) :
      ResolvedField.Alike f v w
  | projected {f : ResolvedField} {n : Descriptor} {v w : Value} (nested : f.nested = some n)
      (h : Descriptor.Alike n v w) : ResolvedField.Alike f v w

/-- Two values are given by one of these fields under its key, and are the same up to that order. -/
inductive ResolvedField.AlikeUnder : List ResolvedField → String → Value → Value → Prop
  | field {fields : List ResolvedField} {f : ResolvedField} {v w : Value} (mem : f ∈ fields)
      (h : ResolvedField.Alike f v w) : ResolvedField.AlikeUnder fields f.key v w

end

/-- Rows with the same keys, whose values are alike. -/
def RowsAlike (fields : List ResolvedField) : Members → Members → Prop :=
  List.Forall₂ fun p q => p.1 = q.1 ∧ ResolvedField.AlikeUnder fields p.1 p.2 q.2

namespace RowsAlike
variable {fields : List ResolvedField} {es es' : Members}

theorem insert {key : String} {v w : Value} (h : RowsAlike fields es es')
    (hvw : ResolvedField.AlikeUnder fields key v w) :
    RowsAlike fields (Entries.insert key v es) (Entries.insert key w es') := by
  induction h with
  | nil => exact .cons ⟨rfl, hvw⟩ .nil
  | @cons p q es es' hpq hes ih =>
    obtain ⟨k, a⟩ := p
    obtain ⟨k', b⟩ := q
    obtain ⟨hkey, hab⟩ := hpq
    obtain rfl : k = k' := hkey
    by_cases hk : k = key
    · subst hk
      rw [Entries.insert, Entries.insert, if_pos rfl, if_pos rfl]
      exact .cons ⟨rfl, hvw⟩ hes
    · rw [Entries.insert, Entries.insert, if_neg hk, if_neg hk]
      exact .cons ⟨rfl, hab⟩ ih

theorem foldl_insert {ps ps' : Members} (hps : RowsAlike fields ps ps')
    (hes : RowsAlike fields es es') :
    RowsAlike fields (ps.foldl (fun es p => Entries.insert p.1 p.2 es) es)
      (ps'.foldl (fun es p => Entries.insert p.1 p.2 es) es') := by
  induction hps generalizing es es' with
  | nil => exact hes
  | @cons p q _ _ hpq _ ih =>
    obtain ⟨hkey, hvalue⟩ := hpq
    rw [List.foldl_cons, List.foldl_cons, ← hkey]
    exact ih (hes.insert hvalue)

/-- Entries of rows that are alike make records that are alike. -/
theorem alike_ofList {d : Descriptor} (h : RowsAlike d.fields es es') :
    d.Alike (.mapping (Entries.ofList es)) (.mapping (Entries.ofList es')) := by
  have hof : RowsAlike d.fields (Entries.ofList es) (Entries.ofList es') := foldl_insert h .nil
  refine .records ?_ fun p hp => (List.forall₂_zip hof hp).2
  generalize Entries.ofList es = xs at hof
  generalize Entries.ofList es' = ys at hof
  induction hof with
  | nil => rfl
  | cons hpq _ ih => rw [Entries.keys, List.map_cons, hpq.1, ← Entries.keys, ih]; rfl

end RowsAlike

/-! ## Projecting -/

/-- A mapping is read as nothing, or left alone like every other value. -/
theorem readScalar_mapping (type : String) :
    (∀ members, readScalar type (.mapping members) = .ok .null) ∨
      ∀ v, readScalar type v = .ok v := by
  by_cases hdate : type = "date"
  · subst hdate
    exact .inl fun _ => rfl
  by_cases hmoment : type = "datetime"
  · subst hmoment
    exact .inl fun _ => rfl
  by_cases hdecimal : type = "Decimal"
  · subst hdecimal
    exact .inl fun _ => rfl
  refine .inr fun v => ?_
  rw [readScalar, Value.coerce, if_neg hdate, if_neg hmoment, if_neg hdecimal]
  rfl

section Values
variable {source : FieldSchema} {v w : Value}

theorem sameOutcome_readPlain (h : v.Reordered w) :
    SameOutcome Value.Reordered (readPlain source v) (readPlain source w) := by
  cases h with
  | refl => exact .refl .refl _
  | @mapping members members' hkeys hvalues =>
    cases hl : source.isList with
    | true =>
      rw [readPlain_of_not_list hl (by simp), readPlain_of_not_list hl (by simp)]
      exact .results (.refl _)
    | false =>
      rw [readPlain_single hl, readPlain_single hl]
      rcases readScalar_mapping source.type with hnull | hsame
      · rw [hnull, hnull]
        exact .results (.refl _)
      · rw [hsame, hsame]
        exact .results (.mapping hkeys hvalues)

/-- Only mappings can differ, and their projections are related when the descriptors' are. -/
theorem sameOutcome_readNested {model target : String}
    {inner : Value → Location → Except ProjectionError Value} {R : Value → Value → Prop}
    (hR : ∀ v, R v v) (hinner : ∀ v w l, v.Reordered w → SameOutcome R (inner v l) (inner w l))
    (h : v.Reordered w) (l : Location) :
    SameOutcome R (readNested model target source inner v l)
      (readNested model target source inner w l) := by
  cases h with
  | refl => exact .refl hR _
  | @mapping members members' hkeys hvalues =>
    cases hl : source.isList with
    | true =>
      rw [readNested_of_not_list hl (by simp), readNested_of_not_list hl (by simp)]
      exact .results (hR _)
    | false =>
      rw [readNested_mapping hl, readNested_mapping hl]
      exact hinner _ _ l (.mapping hkeys hvalues)

end Values

theorem ResolvedField.sameOutcome_rows {model : String} {members members' : Members}
    {l : Location} {fields fs : List ResolvedField} (hfs : ∀ f ∈ fs, f ∈ fields)
    (hkeys : ∀ key, Entries.get? key members = none ↔ Entries.get? key members' = none)
    (h : ∀ f ∈ fs, ∀ v w, Entries.get? f.source.name members = some v →
      Entries.get? f.source.name members' = some w →
      ∀ l, SameOutcome f.Alike (f.project model v l) (f.project model w l)) :
    SameOutcome (RowsAlike fields) (rows model members l fs) (rows model members' l fs) := by
  induction fs with
  | nil => exact .results .nil
  | cons f fs ih =>
    obtain ⟨hf, hfs⟩ := List.forall_mem_cons.1 hfs
    have hrest := ih hfs fun g hg => h g (List.mem_cons_of_mem _ hg)
    cases hv : Entries.get? f.source.name members with
    | none =>
      rw [rows_cons_of_absent hv, rows_cons_of_absent ((hkeys _).1 hv)]
      exact hrest
    | some v =>
      cases hw : Entries.get? f.source.name members' with
      | none => simp [(hkeys _).2 hw] at hv
      | some w =>
        rw [rows_cons_of_present hv, rows_cons_of_present hw]
        refine (h f List.mem_cons_self v w hv hw _).bind ?_
        intro a b hab
        refine hrest.bind ?_
        intro es es' hes
        exact .results (.cons ⟨rfl, .field hf hab⟩ hes)

/-- A projection does not depend on the order of members. -/
theorem Descriptor.sameOutcome_project (d : Descriptor) : ∀ v w l, v.Reordered w →
    SameOutcome d.Alike (d.project v l) (d.project w l) := by
  induction d using Descriptor.induction with
  | step d ih =>
    intro v w l h
    cases h with
    | refl => exact .refl .same _
    | @mapping members members' hkeys hvalues =>
      have hfield : ∀ f ∈ d.fields, ∀ v w, Entries.get? f.source.name members = some v →
          Entries.get? f.source.name members' = some w →
          ∀ l, SameOutcome f.Alike (f.project d.model v l) (f.project d.model w l) := by
        intro f hf v w hv hw l
        have hvw := hvalues _ v w hv hw
        cases hnested : f.nested with
        | none =>
          rw [ResolvedField.project_of_nested_none hnested,
            ResolvedField.project_of_nested_none hnested]
          exact (sameOutcome_readPlain hvw).mono fun _ _ => .unprojected hnested
        | some n =>
          rw [ResolvedField.project_of_nested_some hnested,
            ResolvedField.project_of_nested_some hnested]
          exact (sameOutcome_readNested .same (ih f hf n hnested) hvw l).mono fun _ _ =>
            .projected hnested
      rw [project_mapping, project_mapping]
      refine (ResolvedField.sameOutcome_rows (fun f hf => hf) hkeys hfield).map ?_
      intro es es' hes
      exact hes.alike_ofList

end RecordProjection
