import RecordProjection.Proofs.Record.Unreadable
import RecordProjection.Proofs.Record.Relocation
import RecordProjection.Proofs.Record.Visits
import RecordProjection.Schema.Builtin

/-!
# The first obstacle

A projection meets an obstacle when one of the values that its walk comes to had to be a mapping
and is none. It fails for the first of them, unless a value that cannot be read comes before, and
its error says where that obstacle stands and what it is an obstacle to. It fails for a value that
cannot be read only if no obstacle comes before.

## Main definitions

* `Visit.IsObstacle`, `Visit.Unreadable` : what can be wrong with a value that a walk comes to.
* `Obstacle.Reports` : an obstacle is the report of a visit.
-/
namespace RecordProjection

/-- The place at the end of a path from another place. -/
def Location.along (l : Location) (path : List Step) : Location := ⟨l.origin, l.steps ++ path⟩

theorem Location.text_along (l : Location) (path : List Step) :
    (l.along path).text = l.text ++ trail path := text_under ⟨l.origin, path⟩ l

namespace Visit

/-- A value that had to be a mapping and is none. The value of a field may be nothing at all. -/
def IsObstacle (x : Visit) : Prop :=
  (∀ members, x.value ≠ .mapping members) ∧
    match x.need with
    | .record _ => True
    | .member .. => x.value ≠ .null
    | .scalar _ => False

/-- A value that had to be a scalar of a type and cannot be read as one. -/
def Unreadable (x : Visit) (e : CoercionError) : Prop :=
  match x.need with
  | .scalar type => x.value.Unreadable type e
  | _ => False

/-- Nothing is wrong with a value. -/
def IsFine (x : Visit) : Prop := ¬ x.IsObstacle ∧ ∀ e, ¬ x.Unreadable e

/-- What a walk from a place fails for at a value, if it fails there. -/
def trouble? (l : Location) (x : Visit) : Option ProjectionError :=
  match x.need with
  | .record d =>
    match x.value with
    | .mapping _ => none
    | v => some (.obstacle (.record d.model (l.along x.path) v))
  | .member outer f inner =>
    match x.value with
    | .mapping _ | .null => none
    | v => some (.obstacle
        (.member outer.model f.source.name inner.model (l.along x.path) v))
  | .scalar type => errorOf? (readScalar type x.value)

end Visit

/-- An obstacle is the report of a visit, for a walk that began at a place in words: it says where
the value stands, what it is, which record type it should have been of, and which field of which
record type it is the value of. What is no value of a field is put down to its own record type. -/
structure Obstacle.Reports (o : Obstacle) (origin : String) (x : Visit) : Prop where
  location : o.location.text = origin ++ Location.trail x.path
  value : o.value = x.value
  names : match x.need with
    | .record d => o.expected = d.model ∧ o.field? = none ∧ o.model = d.model
    | .member outer f inner =>
      o.expected = inner.model ∧ o.field? = some f.source.name ∧ o.model = outer.model
    | .scalar _ => False

/-! ## What a walk fails for at a value -/

namespace Visit
variable {l : Location} {x : Visit} {path : List Step} {d outer inner : Descriptor}
  {f : ResolvedField} {v : Value}

theorem trouble?_under (l : Location) (step : Step) (x : Visit) :
    (x.under step).trouble? l = x.trouble? (l.along [step]) := by
  have halong : (l.along [step]).along x.path = l.along (step :: x.path) := by
    simp [Location.along]
  rw [trouble?, trouble?, halong]
  rfl

theorem trouble?_record (hv : ∀ members, v ≠ .mapping members) :
    trouble? l ⟨path, .record d, v⟩ = some (.obstacle (.record d.model (l.along path) v)) := by
  cases v with
  | mapping members => exact absurd rfl (hv members)
  | _ => rfl

theorem trouble?_member (hnull : v ≠ .null) (hv : ∀ members, v ≠ .mapping members) :
    trouble? l ⟨path, .member outer f inner, v⟩ =
      some (.obstacle (.member outer.model f.source.name inner.model (l.along path) v)) := by
  cases v with
  | mapping members => exact absurd rfl (hv members)
  | null => exact absurd rfl hnull
  | _ => rfl

theorem IsObstacle.not_unreadable (h : x.IsObstacle) (e : CoercionError) : ¬ x.Unreadable e := by
  obtain ⟨path, need, v⟩ := x
  cases need with
  | record d => exact id
  | member outer f inner => exact id
  | scalar type => exact absurd h.2 id

/-- A walk fails at a value for an obstacle that it reports, or because it cannot read the value. -/
theorem explained_of_trouble? {err : ProjectionError} (h : x.trouble? l = some err) :
    (∃ o, err = .obstacle o ∧ x.IsObstacle ∧ o.Reports l.text x) ∨
      ∃ e, err = .coercion e ∧ x.Unreadable e := by
  obtain ⟨path, need, v⟩ := x
  cases need with
  | record d =>
    rcases v.mapping_or_not with ⟨members, rfl⟩ | hv
    · cases h
    · obtain rfl := Option.some.inj ((trouble?_record hv).symm.trans h)
      exact .inl ⟨_, rfl, ⟨hv, trivial⟩, l.text_along path, rfl, rfl, rfl, rfl⟩
  | member outer f inner =>
    by_cases hnull : v = .null
    · rw [hnull] at h
      cases h
    rcases v.mapping_or_not with ⟨members, rfl⟩ | hv
    · cases h
    · obtain rfl := Option.some.inj ((trouble?_member hnull hv).symm.trans h)
      exact .inl ⟨_, rfl, ⟨hv, hnull⟩, l.text_along path, rfl, rfl, rfl, rfl⟩
  | scalar type =>
    obtain ⟨e, hunreadable, rfl⟩ := readScalar_eq_error_iff.1 (errorOf?_eq_some_iff.1 h)
    exact .inr ⟨e, rfl, hunreadable⟩

theorem trouble?_eq_coercion_iff {e : CoercionError} :
    x.trouble? l = some (.coercion e) ↔ x.Unreadable e := by
  constructor
  · intro h
    rcases explained_of_trouble? h with ⟨o, ho, -⟩ | ⟨e', he', hunreadable⟩
    · cases ho
    · exact ProjectionError.coercion.inj he' ▸ hunreadable
  · intro h
    obtain ⟨path, need, v⟩ := x
    cases need with
    | record d => exact h.elim
    | member outer f inner => exact h.elim
    | scalar type => exact errorOf?_eq_some_iff.2 (readScalar_eq_error_iff.2 ⟨e, h, rfl⟩)

theorem trouble?_eq_none_iff : x.trouble? l = none ↔ x.IsFine := by
  constructor
  · intro h
    have hreadable (e : CoercionError) (hunreadable : x.Unreadable e) : False := by
      rw [trouble?_eq_coercion_iff.2 hunreadable] at h
      cases h
    refine ⟨fun hobstacle => ?_, hreadable⟩
    obtain ⟨path, need, v⟩ := x
    cases need with
    | record d =>
      rw [trouble?_record hobstacle.1] at h
      cases h
    | member outer f inner =>
      rw [trouble?_member hobstacle.2 hobstacle.1] at h
      cases h
    | scalar type => exact hobstacle.2
  · rintro ⟨hobstacle, hreadable⟩
    cases h : x.trouble? l with
    | none => rfl
    | some err =>
      rcases explained_of_trouble? h with ⟨-, -, hyes, -⟩ | ⟨e, -, hyes⟩
      · exact absurd hyes hobstacle
      · exact absurd hyes (hreadable e)

end Visit

/-! ## A walk fails at the first value where it can -/

/-- The first thing that goes wrong at the values that a walk comes to. -/
def firstTrouble? (l : Location) (xs : List Visit) : Option ProjectionError :=
  xs.findSome? (Visit.trouble? l)

theorem firstTrouble?_append (l : Location) (xs ys : List Visit) :
    firstTrouble? l (xs ++ ys) = (firstTrouble? l xs).or (firstTrouble? l ys) :=
  List.findSome?_append

theorem firstTrouble?_map_under (l : Location) (step : Step) (xs : List Visit) :
    firstTrouble? l (xs.map (Visit.under step)) = firstTrouble? (l.along [step]) xs := by
  rw [firstTrouble?, List.findSome?_map, firstTrouble?]
  congr 1
  funext x
  exact Visit.trouble?_under l step x

theorem firstTrouble?_cons_of_none {l : Location} {x : Visit} (h : x.trouble? l = none)
    (xs : List Visit) : firstTrouble? l (x :: xs) = firstTrouble? l xs := by
  rw [firstTrouble?, List.findSome?_cons, h, firstTrouble?]

theorem firstTrouble?_cons_of_some {l : Location} {x : Visit} {err : ProjectionError}
    (h : x.trouble? l = some err) (xs : List Visit) : firstTrouble? l (x :: xs) = some err := by
  rw [firstTrouble?, List.findSome?_cons, h]

theorem firstTrouble?_of_isObstacle (l : Location) {before : List Visit} {x : Visit}
    (hx : x.IsObstacle) (hbefore : ∀ y ∈ before, ∀ e, ¬ y.Unreadable e) (after : List Visit) :
    ∃ o, firstTrouble? l (before ++ x :: after) = some (.obstacle o) := by
  induction before with
  | nil =>
    cases h : x.trouble? l with
    | none => exact absurd hx (Visit.trouble?_eq_none_iff.1 h).1
    | some err =>
      rcases Visit.explained_of_trouble? h with ⟨o, rfl, -⟩ | ⟨e, -, hunreadable⟩
      · exact ⟨o, firstTrouble?_cons_of_some h after⟩
      · exact absurd hunreadable (hx.not_unreadable e)
  | cons y before ih =>
    obtain ⟨hy, hbefore⟩ := List.forall_mem_cons.1 hbefore
    rw [List.cons_append]
    cases h : y.trouble? l with
    | none =>
      rw [firstTrouble?_cons_of_none h]
      exact ih hbefore
    | some err =>
      rcases Visit.explained_of_trouble? h with ⟨o, rfl, -⟩ | ⟨e, -, hunreadable⟩
      · exact ⟨o, firstTrouble?_cons_of_some h _⟩
      · exact absurd hunreadable (hy e)

namespace ResolvedField
variable {f : ResolvedField}

theorem errorOf?_readPlain (source : FieldSchema) (v : Value) (l : Location) :
    errorOf? (readPlain source v) = firstTrouble? l (plainVisits source v) := by
  cases hl : source.isList with
  | false =>
    rw [readPlain_single hl, plainVisits_single hl, firstTrouble?, List.findSome?_singleton]
    rfl
  | true =>
    rcases v.list_or_not with ⟨items, rfl⟩ | hv
    · rw [readPlain_list hl, errorOf?_map, errorOf?_mapM, plainVisits_list hl, firstTrouble?,
        List.findSome?_map]
      have hitems := List.findSome?_map (p := fun a => errorOf? (readScalar source.type a))
        (f := Prod.fst) (l := items.zipIdx)
      rw [List.zipIdx_map_fst] at hitems
      exact hitems
    · rw [readPlain_of_not_list hl hv, plainVisits_of_not_list hl hv]
      rfl

theorem errorOf?_project {outer : Descriptor}
    (hn : ∀ n, f.nested = some n →
      ∀ v l, errorOf? (n.project v l) = firstTrouble? l (n.visits v)) (v : Value) (l : Location) :
    errorOf? (f.project outer.model v l) = firstTrouble? l (f.visits outer v) := by
  cases hnested : f.nested with
  | none =>
    rw [project_of_nested_none hnested, visits_of_plain hnested]
    exact errorOf?_readPlain f.source v l
  | some n =>
    rw [project_of_nested_some hnested]
    cases hl : f.source.isList with
    | false =>
      rw [visits_of_single hnested hl]
      by_cases hnull : v = .null
      · rw [hnull, readNested_null hl, n.inside_of_not_mapping (by simp)]
        rfl
      rcases v.mapping_or_not with ⟨members, rfl⟩ | hv
      · -- neither the value of the field nor the record it is can fail: both are the mapping
        rw [readNested_mapping hl, hn n hnested, firstTrouble?_cons_of_none rfl]
        exact firstTrouble?_cons_of_none rfl _
      · rw [readNested_of_not_mapping hl hnull hv,
          firstTrouble?_cons_of_some (Visit.trouble?_member hnull hv)]
        simp [errorOf?, Location.along]
    | true =>
      rcases v.list_or_not with ⟨items, rfl⟩ | hv
      · rw [readNested_list hl, errorOf?_map, errorOf?_mapM, visits_of_list hnested hl,
          firstTrouble?, findSome?_flatMap]
        congr 1
        funext p
        rw [hn n hnested]
        exact (firstTrouble?_map_under l (.item p.2) (n.visits p.1)).symm
      · rw [readNested_of_not_list hl hv, visits_of_not_list hnested hl hv]
        rfl

theorem errorOf?_rows {outer : Descriptor} {members : Members} {l : Location}
    {fs : List ResolvedField}
    (hfields : ∀ f ∈ fs, ∀ v l,
      errorOf? (f.project outer.model v l) = firstTrouble? l (f.visits outer v)) :
    errorOf? (rows outer.model members l fs) = firstTrouble? l (allVisits outer members fs) := by
  induction fs with
  | nil => rfl
  | cons f fs ih =>
    obtain ⟨hhere, hthere⟩ := List.forall_mem_cons.1 hfields
    cases hv : Entries.get? f.source.name members with
    | none => rw [rows_cons_of_absent hv, ih hthere, allVisits, hv]
    | some v =>
      -- what a field gives has no influence on the errors of the fields behind it
      have hrest (w : Value) : errorOf? (do
          let rest ← rows outer.model members l fs
          .ok ((f.key, w) :: rest) : Except ProjectionError Members) =
            firstTrouble? l (allVisits outer members fs) := by
        have hok (rest : Members) :
            errorOf? (.ok ((f.key, w) :: rest) : Except ProjectionError Members) = none := rfl
        rw [errorOf?_bind hok, Option.or_none, ih hthere]
      rw [rows_cons_of_present hv, errorOf?_bind hrest, hhere, allVisits, hv,
        firstTrouble?_append, firstTrouble?_map_under]
      rfl

end ResolvedField

namespace Descriptor

/-- A walk fails for the first thing that goes wrong at the values that it comes to. -/
theorem errorOf?_project (d : Descriptor) : ∀ v l,
    errorOf? (d.project v l) = firstTrouble? l (d.visits v) := by
  induction d using Descriptor.induction with
  | step d ih =>
    intro v l
    rcases v.mapping_or_not with ⟨members, rfl⟩ | hv
    · rw [project_mapping, errorOf?_map, visits, firstTrouble?_cons_of_none rfl, inside_mapping]
      exact ResolvedField.errorOf?_rows fun f hf => ResolvedField.errorOf?_project (ih f hf)
    · rw [d.project_of_not_mapping hv, visits,
        firstTrouble?_cons_of_some (Visit.trouble?_record hv)]
      simp [errorOf?, Location.along]

/-- A walk fails for a value that it comes to when nothing is wrong with the values before. -/
theorem project_eq_error_iff {d : Descriptor} {v : Value} {l : Location} {err : ProjectionError} :
    d.project v l = .error err ↔ ∃ before x after, d.visits v = before ++ x :: after ∧
      x.trouble? l = some err ∧ ∀ y ∈ before, y.IsFine := by
  rw [← errorOf?_eq_some_iff, errorOf?_project, firstTrouble?, List.findSome?_eq_some_iff]
  simp only [Visit.trouble?_eq_none_iff]

/-- Where an obstacle is reported, the walk comes to it before anything else goes wrong. -/
theorem exists_visit_of_project {d : Descriptor} {v : Value} {l : Location} {o : Obstacle}
    (h : d.project v l = .error (.obstacle o)) :
    ∃ before x after, d.visits v = before ++ x :: after ∧
      (∀ y ∈ before, y.IsFine) ∧ x.IsObstacle ∧ o.Reports l.text x := by
  obtain ⟨before, x, after, hvisits, hx, hbefore⟩ := project_eq_error_iff.1 h
  refine ⟨before, x, after, hvisits, hbefore, ?_⟩
  rcases Visit.explained_of_trouble? hx with ⟨o', ho', hobstacle⟩ | ⟨e, he, -⟩
  · obtain rfl := ProjectionError.obstacle.inj ho'
    exact hobstacle
  · cases he

/-- An obstacle with only values before it that can be read makes the walk report one. -/
theorem exists_project_of_visit {d : Descriptor} {v : Value} {before after : List Visit} {x : Visit}
    (hvisits : d.visits v = before ++ x :: after) (hx : x.IsObstacle)
    (hbefore : ∀ y ∈ before, ∀ e, ¬ y.Unreadable e) (l : Location) :
    ∃ o, d.project v l = .error (.obstacle o) := by
  obtain ⟨o, ho⟩ := firstTrouble?_of_isObstacle l hx hbefore after
  rw [← hvisits, ← errorOf?_project, errorOf?_eq_some_iff] at ho
  exact ⟨o, ho⟩

section Records
variable {d : Descriptor} {joiner : Option Joiner} {raw : Value} {origin : String}

/-- Apart from the lack of a joiner, only the walk itself fails. -/
theorem record_eq_error_iff {err : ProjectionError} (herr : err ≠ .emptyJoiner) :
    d.record joiner raw origin = .error err ↔
      ∃ v, d.unflattened joiner raw = .ok v ∧ d.project v (.start origin) = .error err := by
  have hunflattened : d.unflattened joiner raw ≠ .error err := fun h =>
    herr (eq_emptyJoiner_of_unflattened h)
  rw [record, exceptBind_eq_error_iff, or_iff_right hunflattened]

/-- A value cannot be read, and nothing is wrong with the values before. -/
theorem record_eq_coercion_iff {e : CoercionError} :
    d.record joiner raw origin = .error (.coercion e) ↔
      ∃ v before x after, d.unflattened joiner raw = .ok v ∧ d.visits v = before ++ x :: after ∧
        x.Unreadable e ∧ ∀ y ∈ before, y.IsFine := by
  have herr : ProjectionError.coercion e ≠ .emptyJoiner := nofun
  simp only [record_eq_error_iff herr, project_eq_error_iff, Visit.trouble?_eq_coercion_iff,
    exists_and_left]

end Records

/-- A payload gives an obstacle exactly when the walk along its descriptor comes to one, and not to
a value that cannot be read before. The obstacle that is reported is the first one. Its place is the
origin with the steps of the path to it behind, its value is what stands at that path, and its
record types and its field are those that the descriptor has there. Apart from obstacles a payload
fails for the first value that cannot be read, if no obstacle comes before. -/
theorem record_reports_first_obstacle (d : Descriptor) (joiner : Option Joiner) (raw : Value)
    (origin : String) :
    ((∃ o, d.record joiner raw origin = .error (.obstacle o)) ↔
      ∃ v before x after, d.unflattened joiner raw = .ok v ∧ d.visits v = before ++ x :: after ∧
        x.IsObstacle ∧ ∀ y ∈ before, ∀ e, ¬ y.Unreadable e) ∧
    (∀ o, d.record joiner raw origin = .error (.obstacle o) →
      ∃ v before x after, d.unflattened joiner raw = .ok v ∧ d.visits v = before ++ x :: after ∧
        (∀ y ∈ before, y.IsFine) ∧ x.IsObstacle ∧
        d.Leads x.path x.need ∧ v.follow? x.path = some x.value ∧ o.Reports origin x) ∧
    ∀ e, d.record joiner raw origin = .error (.coercion e) ↔
      ∃ v before x after, d.unflattened joiner raw = .ok v ∧ d.visits v = before ++ x :: after ∧
        x.Unreadable e ∧ ∀ y ∈ before, y.IsFine := by
  have hnot (o : Obstacle) : ProjectionError.obstacle o ≠ .emptyJoiner := nofun
  have hreport (o : Obstacle) (h : d.record joiner raw origin = .error (.obstacle o)) :
      ∃ v before x after, d.unflattened joiner raw = .ok v ∧ d.visits v = before ++ x :: after ∧
        (∀ y ∈ before, y.IsFine) ∧ x.IsObstacle ∧
        d.Leads x.path x.need ∧ v.follow? x.path = some x.value ∧ o.Reports origin x := by
    obtain ⟨v, hv, hproject⟩ := (record_eq_error_iff (hnot o)).1 h
    obtain ⟨before, x, after, hvisits, hbefore, hx, hreports⟩ := exists_visit_of_project hproject
    have hmem : x ∈ d.visits v := by
      rw [hvisits]
      exact List.mem_append_right before List.mem_cons_self
    obtain ⟨hleads, hfollow⟩ := mem_visits_iff.1 hmem
    exact ⟨v, before, x, after, hv, hvisits, hbefore, hx, hleads, hfollow, hreports⟩
  refine ⟨⟨?_, ?_⟩, hreport, fun e => record_eq_coercion_iff⟩
  · rintro ⟨o, h⟩
    obtain ⟨v, before, x, after, hv, hvisits, hbefore, hx, -⟩ := hreport o h
    exact ⟨v, before, x, after, hv, hvisits, hx, fun y hy => (hbefore y hy).2⟩
  · rintro ⟨v, before, x, after, hv, hvisits, hx, hbefore⟩
    obtain ⟨o, ho⟩ := exists_project_of_visit hvisits hx hbefore (.start origin)
    exact ⟨o, (record_eq_error_iff (hnot o)).2 ⟨v, hv, ho⟩⟩

/-- A contract whose value is the least number with too many digits, and whose recipient is none. -/
def longAward : Value :=
  .mapping [("obligated", .int (Number.tenPow Json.maxDigits)), ("recipient", .text "nobody")]

/-- An obstacle behind an integer with too many digits is not reported, though no date lies outside
the calendar. -/
theorem record_fails_before_obstacle :
    ∃ d, Registry.builtin.resolve 2 "Contract" ⟨[.named "obligated" none none (by decide),
        .named "recipient" none (some [.named "display_name" none none (by decide)]) (by decide)],
        false, false⟩ = .ok d ∧
      (∃ before x after, d.visits longAward = before ++ x :: after ∧ x.IsObstacle ∧
        ∀ y ∈ before, ¬ y.Unreadable (.dateOverflow ⟨⟩)) ∧
      d.record none longAward "root" = .error (.coercion .integerTooLong) := by
  have hrecord (path : List Step) (n : Descriptor) (members : Members) :
      Visit.IsFine ⟨path, .record n, .mapping members⟩ :=
    ⟨fun h => h.1 members rfl, fun _ => id⟩
  have hlong : (Value.int (Number.tenPow Json.maxDigits)).Unreadable "Decimal" .integerTooLong :=
    .decimal (Nat.le_of_eq (Int.natAbs_natCast _).symm)
  -- the walk comes to the contract, to the integer and last to the recipient
  refine ⟨_, rfl, ⟨[_, _], _, [], rfl, ?_, ?_⟩, ?_⟩
  · exact ⟨nofun, nofun⟩
  · refine List.forall_mem_cons.2 ⟨(hrecord _ _ _).2 _, List.forall_mem_singleton.2 ?_⟩
    exact fun h => absurd (Value.Unreadable.eq_date h) (by decide)
  · refine record_eq_coercion_iff.2 ⟨longAward, [_], _, _, rfl, rfl, hlong, ?_⟩
    exact List.forall_mem_singleton.2 (hrecord _ _ _)

end Descriptor
end RecordProjection
