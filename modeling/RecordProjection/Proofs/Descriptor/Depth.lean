import RecordProjection.Proofs.Descriptor.Levels
import RecordProjection.Proofs.Shape.Payload

/-!
# The limit on depth

Requests are resolved at the end of a path of record types, and of the path only the room that the
limit leaves behind it matters. With more room the outcome stays what it was, as long as it was not
that the path became too long.

## Main definitions

* `UnlessTooDeep` : two results are the same, unless the first is that a path is too long.
-/
namespace RecordProjection

/-- Two results are the same, unless the first is that a path is too long. -/
def UnlessTooDeep {α : Type} (x y : Except SchemaError α) : Prop :=
  (∀ limit path, x ≠ .error (.tooDeep limit path)) → x = y

namespace UnlessTooDeep
variable {α β : Type}

theorem refl (x : Except SchemaError α) : UnlessTooDeep x x := fun _ => rfl

theorem tooDeep (limit : Nat) (path : List String) (y : Except SchemaError α) :
    UnlessTooDeep (.error (.tooDeep limit path)) y := fun h => absurd rfl (h limit path)

theorem bind {x y : Except SchemaError α} {f g : α → Except SchemaError β}
    (h : UnlessTooDeep x y) (hnext : ∀ a, UnlessTooDeep (f a) (g a)) :
    UnlessTooDeep (x >>= f) (y >>= g) := by
  intro hnot
  have hx : ∀ limit path, x ≠ .error (.tooDeep limit path) := by
    intro limit path hx
    exact hnot limit path (by rw [hx]; rfl)
  obtain rfl := h hx
  cases x with
  | error e => rfl
  | ok a => exact hnext a hnot

theorem mapM {f g : α → Except SchemaError β} (h : ∀ a, UnlessTooDeep (f a) (g a))
    (as : List α) : UnlessTooDeep (as.mapM f) (as.mapM g) := by
  induction as with
  | nil => exact .refl _
  | cons a as ih =>
    rw [List.mapM_cons, List.mapM_cons]
    exact (h a).bind fun b => ih.bind fun bs => .refl _

/-- A result that is there stays there. -/
theorem eq_ok {x y : Except SchemaError α} (h : UnlessTooDeep x y) {a : α} (hx : x = .ok a) :
    y = .ok a := by
  subst hx
  exact (h (by simp)).symm

end UnlessTooDeep

namespace Registry

theorem unlessTooDeep_innerFields {r : Registry} {target : String} {specs : List FieldSpec}
    {resolved resolved' : Model → Except SchemaError (List ResolvedField)}
    (h : ∀ m, UnlessTooDeep (resolved m) (resolved' m)) :
    UnlessTooDeep (r.innerFields target specs resolved) (r.innerFields target specs resolved') := by
  rw [innerFields.eq_def, innerFields.eq_def]
  split
  · exact .refl _
  · exact (UnlessTooDeep.refl _).bind fun m => (h m).bind fun fields => .refl _

section Room
variable {r : Registry} {maxDepth maxDepth' : Nat}

/-- One step down takes as much of the room behind either path. -/
theorem unlessTooDeep_resolveAt {path path' : List String} {model : Model} {spec : FieldSpec}
    {inner inner' : List String → Model → Except SchemaError (List ResolvedField)}
    (hroom : maxDepth + path'.length ≤ maxDepth' + path.length)
    (hinner : ∀ path path' m, maxDepth + path'.length ≤ maxDepth' + path.length →
      UnlessTooDeep (inner path m) (inner' path' m)) (source : FieldSchema) :
    UnlessTooDeep (r.resolveAt maxDepth path model spec inner source)
      (r.resolveAt maxDepth' path' model spec inner' source) := by
  rw [resolveAt.eq_def, resolveAt.eq_def]
  split
  · exact .refl _
  · exact .refl _
  · next specs _ _ =>
    rw [descend, descend]
    cases source.target? with
    | none => exact .refl _
    | some target =>
      simp only [List.length_append, List.length_singleton]
      by_cases hlong : maxDepth < path.length + 1
      · rw [if_pos hlong]
        exact .tooDeep _ _ _
      · have hshort : ¬ maxDepth' < path'.length + 1 := by omega
        rw [if_neg hlong, if_neg hshort]
        have hfields : UnlessTooDeep (r.innerFields target specs (inner (path ++ [target])))
            (r.innerFields target specs (inner' (path' ++ [target]))) := by
          apply unlessTooDeep_innerFields
          intro m
          apply hinner
          simp only [List.length_append, List.length_singleton]
          omega
        exact hfields.bind fun fields => .refl _

theorem unlessTooDeep_resolveSpecs_of_forall {path path' : List String} {model : Model}
    {specs : List FieldSpec} (h : ∀ spec ∈ specs,
      UnlessTooDeep (r.resolveSpec maxDepth path model spec)
        (r.resolveSpec maxDepth' path' model spec)) :
    UnlessTooDeep (r.resolveSpecs maxDepth path model specs)
      (r.resolveSpecs maxDepth' path' model specs) := by
  induction specs with
  | nil => exact .refl _
  | cons spec specs ih =>
    rw [resolveSpecs, resolveSpecs]
    refine (h spec List.mem_cons_self).bind fun fields => ?_
    exact (ih fun spec hspec => h spec (List.mem_cons_of_mem _ hspec)).bind fun more => .refl _

/-- With more room behind its path a request is resolved alike. -/
theorem unlessTooDeep_resolveSpec (spec : FieldSpec) : ∀ (path path' : List String) (model : Model),
    maxDepth + path'.length ≤ maxDepth' + path.length →
      UnlessTooDeep (r.resolveSpec maxDepth path model spec)
        (r.resolveSpec maxDepth' path' model spec) := by
  induction spec using FieldSpec.induction with
  | step spec ih =>
    intro path path' model hroom
    have hinner (path path' : List String) (m : Model)
        (hroom : maxDepth + path'.length ≤ maxDepth' + path.length) :
        UnlessTooDeep (r.resolveInner maxDepth path m spec.nested)
          (r.resolveInner maxDepth' path' m spec.nested) := by
      cases hspecs : spec.nested with
      | none => exact .refl _
      | some specs =>
        exact unlessTooDeep_resolveSpecs_of_forall
          fun g hg => ih specs hspecs g hg path path' m hroom
    rw [resolveSpec_eq, resolveSpec_eq]
    refine (UnlessTooDeep.refl _).bind fun sources => ?_
    exact .mapM (unlessTooDeep_resolveAt hroom hinner) sources

/-- With more room behind their path requests are resolved alike. -/
theorem unlessTooDeep_resolveSpecs {path path' : List String}
    (hroom : maxDepth + path'.length ≤ maxDepth' + path.length) (model : Model)
    (specs : List FieldSpec) :
    UnlessTooDeep (r.resolveSpecs maxDepth path model specs)
      (r.resolveSpecs maxDepth' path' model specs) :=
  unlessTooDeep_resolveSpecs_of_forall
    fun spec _ => unlessTooDeep_resolveSpec spec path path' model hroom

end Room

end Registry
end RecordProjection
