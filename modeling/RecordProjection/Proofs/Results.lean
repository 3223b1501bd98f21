import Mathlib.Data.List.Forall2

/-!
# Results that may be errors

How the result of a step, of a step followed by another, and of a step taken for each item of a
list comes about.
-/
namespace RecordProjection

variable {ε α β : Type}

theorem exceptMap_eq_ok_iff {f : α → β} {e : Except ε α} {b : β} :
    e.map f = .ok b ↔ ∃ a, e = .ok a ∧ f a = b := by
  cases e <;> simp [Except.map]

theorem exceptMapError_eq_ok_iff {ε' : Type} {f : ε → ε'} {e : Except ε α} {a : α} :
    e.mapError f = .ok a ↔ e = .ok a := by
  cases e <;> simp [Except.mapError]

theorem exceptBind_eq_ok_iff {e : Except ε α} {f : α → Except ε β} {b : β} :
    e >>= f = .ok b ↔ ∃ a, e = .ok a ∧ f a = .ok b := by
  cases e <;> simp [bind, Except.bind]

theorem exceptMap_eq_error_iff {f : α → β} {e : Except ε α} {err : ε} :
    e.map f = .error err ↔ e = .error err := by
  cases e <;> simp [Except.map]

theorem exceptMapError_eq_error_iff {ε' : Type} {f : ε → ε'} {e : Except ε α} {err' : ε'} :
    e.mapError f = .error err' ↔ ∃ err, e = .error err ∧ f err = err' := by
  cases e <;> simp [Except.mapError]

theorem exceptBind_eq_error_iff {e : Except ε α} {f : α → Except ε β} {err : ε} :
    e >>= f = .error err ↔ e = .error err ∨ ∃ a, e = .ok a ∧ f a = .error err := by
  cases e <;> simp [bind, Except.bind]

theorem exceptOk_bind (a : α) (f : α → Except ε β) : (.ok a >>= f) = f a := rfl

/-- Results that agree in part give the same in a step that looks at this part only. -/
theorem exceptBind_congr_of_map {γ : Type} {x y : Except ε α} {f : α → β} {g : α → Except ε γ}
    (h : x.map f = y.map f) (hg : ∀ a b, f a = f b → g a = g b) : x.bind g = y.bind g := by
  cases x with
  | error e =>
    cases y with
    | error e' => exact congrArg Except.error (Except.error.inj h)
    | ok b => simp [Except.map] at h
  | ok a =>
    cases y with
    | error e' => simp [Except.map] at h
    | ok b => exact hg a b (Except.ok.inj h)

/-- The error of a result, if it is one. -/
def errorOf? : Except ε α → Option ε
  | .ok _ => none
  | .error err => some err

theorem errorOf?_eq_some_iff {e : Except ε α} {err : ε} :
    errorOf? e = some err ↔ e = .error err := by
  cases e <;> simp [errorOf?]

theorem errorOf?_eq_none_iff {e : Except ε α} : errorOf? e = none ↔ ∃ a, e = .ok a := by
  cases e <;> simp [errorOf?]

theorem errorOf?_map (f : α → β) (e : Except ε α) : errorOf? (e.map f) = errorOf? e := by
  cases e <;> rfl

/-- The error of a step, or else that of the step behind it. -/
theorem errorOf?_bind {e : Except ε α} {f : α → Except ε β} {err? : Option ε}
    (h : ∀ a, errorOf? (f a) = err?) : errorOf? (e >>= f) = (errorOf? e).or err? := by
  cases e with
  | error err => rfl
  | ok a => exact h a

/-- The error of a step taken for each item of a list is the first one. -/
theorem errorOf?_mapM (f : α → Except ε β) (as : List α) :
    errorOf? (as.mapM f) = as.findSome? fun a => errorOf? (f a) := by
  induction as with
  | nil => rfl
  | cons a as ih =>
    have hrest (b : β) : errorOf? (as.mapM f >>= fun bs => pure (b :: bs)) =
        as.findSome? fun a => errorOf? (f a) := by
      have hpure (bs : List β) : errorOf? (pure (b :: bs) : Except ε (List β)) = none := rfl
      rw [errorOf?_bind hpure, Option.or_none, ih]
    rw [List.mapM_cons, errorOf?_bind hrest, List.findSome?_cons]
    cases errorOf? (f a) <;> rfl

theorem findSome?_flatMap {γ : Type} (f : β → Option γ) (g : α → List β) (as : List α) :
    (as.flatMap g).findSome? f = as.findSome? fun a => (g a).findSome? f := by
  induction as with
  | nil => rfl
  | cons a as ih =>
    rw [List.flatMap_cons, List.findSome?_append, ih, List.findSome?_cons]
    cases (g a).findSome? f <;> rfl

section Errors
variable {ε' : Type} {g : ε → ε'}

theorem exceptMapError_map (x : Except ε α) (f : α → β) :
    (x.map f).mapError g = (x.mapError g).map f := by
  cases x <;> rfl

theorem exceptMapError_bind (x : Except ε α) (f : α → Except ε β) :
    (x >>= f).mapError g = x.mapError g >>= fun a => (f a).mapError g := by
  cases x <;> rfl

/-- A list gives the same under another name for its errors as its items do. -/
theorem exceptMapError_mapM (as : List α) (f : α → Except ε β) :
    (as.mapM f).mapError g = as.mapM fun a => (f a).mapError g := by
  induction as with
  | nil => rfl
  | cons a as ih =>
    rw [List.mapM_cons, List.mapM_cons, exceptMapError_bind, ← ih]
    congr 1
    funext b
    rw [exceptMapError_bind]
    rfl

/-- Steps whose errors go by two names each fail together, for the same item of a list. -/
theorem exists_of_mapM_mapError (g g' : α → ε → ε') (f : α → Except ε β) (as : List α) :
    (∃ bs, as.mapM (fun a => (f a).mapError (g a)) = .ok bs ∧
      as.mapM (fun a => (f a).mapError (g' a)) = .ok bs) ∨
    ∃ a ∈ as, ∃ e, f a = .error e ∧ as.mapM (fun a => (f a).mapError (g a)) = .error (g a e) ∧
      as.mapM (fun a => (f a).mapError (g' a)) = .error (g' a e) := by
  induction as with
  | nil => exact .inl ⟨[], rfl, rfl⟩
  | cons a as ih =>
    rw [List.mapM_cons, List.mapM_cons]
    cases ha : f a with
    | error e => exact .inr ⟨a, List.mem_cons_self, e, ha, rfl, rfl⟩
    | ok b =>
      rcases ih with ⟨bs, hg, hg'⟩ | ⟨a', ha', e, he, hg, hg'⟩
      · rw [hg, hg']
        exact .inl ⟨b :: bs, rfl, rfl⟩
      · rw [hg, hg']
        exact .inr ⟨a', List.mem_cons_of_mem _ ha', e, he, rfl, rfl⟩

end Errors

/-- A step taken for each item of a list succeeds when it does so for all of them. -/
theorem exceptMapM_eq_ok_iff {f : α → Except ε β} {as : List α} {bs : List β} :
    as.mapM f = .ok bs ↔ List.Forall₂ (fun a b => f a = .ok b) as bs := by
  induction as generalizing bs with
  | nil => simp [pure, Except.pure, eq_comm]
  | cons a as ih =>
    simp only [List.mapM_cons, exceptBind_eq_ok_iff, ih, List.forall₂_cons_left_iff, pure,
      Except.pure, Except.ok.injEq]
    constructor
    · rintro ⟨b, hb, bs', hbs, rfl⟩
      exact ⟨b, bs', hb, hbs, rfl⟩
    · rintro ⟨b, bs', hb, hbs, rfl⟩
      exact ⟨b, hb, bs', hbs, rfl⟩

/-- Of two lists that are related item by item, each item of the second is related to one of the
first. -/
theorem exists_of_mem_forall₂ {R : α → β → Prop} {as : List α} {bs : List β} {b : β}
    (h : List.Forall₂ R as bs) (hb : b ∈ bs) : ∃ a ∈ as, R a b := by
  induction h with
  | nil => exact absurd hb List.not_mem_nil
  | @cons a c as bs hac _ ih =>
    rcases List.mem_cons.1 hb with rfl | hb
    · exact ⟨a, List.mem_cons_self, hac⟩
    · obtain ⟨a', ha', hb'⟩ := ih hb
      exact ⟨a', List.mem_cons_of_mem _ ha', hb'⟩

/-- What follows for the items of the second list follows item by item. -/
theorem forall₂_imp_of_mem {R S : α → β → Prop} {as : List α} {bs : List β}
    (h : List.Forall₂ R as bs) (himp : ∀ a, ∀ b ∈ bs, R a b → S a b) : List.Forall₂ S as bs := by
  induction h with
  | nil => exact .nil
  | @cons a b as bs hab _ ih =>
    refine .cons (himp a b List.mem_cons_self hab) (ih ?_)
    intro a b hb
    exact himp a b (List.mem_cons_of_mem _ hb)

/-- Lists that are related item by item are the same in what related items have in common. -/
theorem map_eq_of_forall₂ {γ : Type} {R : α → β → Prop} {f : α → γ} {g : β → γ} {as : List α}
    {bs : List β} (h : List.Forall₂ R as bs) (heq : ∀ a b, R a b → g b = f a) :
    bs.map g = as.map f := by
  induction h with
  | nil => rfl
  | cons hab _ ih => rw [List.map_cons, List.map_cons, heq _ _ hab, ih]

/-- Items that are each related to something with a property are related to a list of these. -/
theorem exists_forall₂_of_forall {R : α → β → Prop} {P : β → Prop} {as : List α}
    (h : ∀ a ∈ as, ∃ b, R a b ∧ P b) : ∃ bs, List.Forall₂ R as bs ∧ ∀ b ∈ bs, P b := by
  induction as with
  | nil => exact ⟨[], .nil, by simp⟩
  | cons a as ih =>
    obtain ⟨⟨b, hab, hb⟩, has⟩ := List.forall_mem_cons.1 h
    obtain ⟨bs, hbs, hall⟩ := ih has
    exact ⟨b :: bs, .cons hab hbs, List.forall_mem_cons.2 ⟨hb, hall⟩⟩

theorem exists_of_mem_mapM {f : α → Except ε β} {as : List α} {bs : List β} {b : β}
    (h : as.mapM f = .ok bs) (hb : b ∈ bs) : ∃ a ∈ as, f a = .ok b :=
  exists_of_mem_forall₂ (R := fun a b => f a = .ok b) (exceptMapM_eq_ok_iff.1 h) hb

/-- Each item of the first list is related to one of the second. -/
theorem exists_of_mem_forall₂_left {R : α → β → Prop} {as : List α} {bs : List β} {a : α}
    (h : List.Forall₂ R as bs) (ha : a ∈ as) : ∃ b ∈ bs, R a b :=
  exists_of_mem_forall₂ h.flip ha

/-- A list related item by item to two lists put together comes apart like these. -/
theorem forall₂_append_left_iff {R : α → β → Prop} {as as' : List α} {bs : List β} :
    List.Forall₂ R (as ++ as') bs ↔
      ∃ cs cs', List.Forall₂ R as cs ∧ List.Forall₂ R as' cs' ∧ bs = cs ++ cs' := by
  induction as generalizing bs with
  | nil => simp
  | cons a as ih =>
    rw [List.cons_append, List.forall₂_cons_left_iff]
    simp only [ih, List.forall₂_cons_left_iff]
    constructor
    · rintro ⟨b, _, hb, ⟨cs, cs', hcs, hcs', rfl⟩, rfl⟩
      exact ⟨b :: cs, cs', ⟨b, cs, hb, hcs, rfl⟩, hcs', rfl⟩
    · rintro ⟨_, cs', ⟨b, cs, hb, hcs, rfl⟩, hcs', rfl⟩
      exact ⟨b, cs ++ cs', hb, ⟨cs, cs', hcs, hcs', rfl⟩, rfl⟩

/-- A step that fails for a list fails for one of its items. -/
theorem exists_of_mapM_eq_error {f : α → Except ε β} {as : List α} {err : ε}
    (h : as.mapM f = .error err) : ∃ a ∈ as, f a = .error err := by
  rw [← errorOf?_eq_some_iff, errorOf?_mapM] at h
  obtain ⟨a, ha, hf⟩ := List.exists_of_findSome?_eq_some h
  exact ⟨a, ha, errorOf?_eq_some_iff.1 hf⟩

/-- A step that knows the place of its item succeeded somewhere on every item. -/
theorem forall₂_of_mapM_zipIdx {f : α × Nat → Except ε β} {as : List α} {bs : List β} {k : Nat}
    (h : (as.zipIdx k).mapM f = .ok bs) :
    List.Forall₂ (fun a b => ∃ i, f (a, i) = .ok b) as bs := by
  rw [exceptMapM_eq_ok_iff] at h
  induction as generalizing k bs with
  | nil =>
    rw [List.zipIdx_nil, List.forall₂_nil_left_iff] at h
    exact h ▸ .nil
  | cons a as ih =>
    rw [List.zipIdx_cons, List.forall₂_cons_left_iff] at h
    obtain ⟨b, bs', hb, hbs, rfl⟩ := h
    exact .cons ⟨k, hb⟩ (ih hbs)

/-- Steps that do the same on items that are related, wherever these stand, do the same on the
lists. -/
theorem mapM_zipIdx_congr {f g : α × Nat → Except ε β} {as bs : List α}
    (h : List.Forall₂ (fun a b => ∀ i, f (a, i) = g (b, i)) as bs) (k : Nat) :
    (as.zipIdx k).mapM f = (bs.zipIdx k).mapM g := by
  induction h generalizing k with
  | nil => rfl
  | cons hab _ ih =>
    rw [List.zipIdx_cons, List.zipIdx_cons, List.mapM_cons, List.mapM_cons, hab, ih]

/-- A step that succeeds on every item wherever it stands succeeds on the list. -/
theorem mapM_zipIdx_of_forall₂ {f : α × Nat → Except ε β} {as : List α} {bs : List β}
    (h : List.Forall₂ (fun a b => ∀ i, f (a, i) = .ok b) as bs) (k : Nat) :
    (as.zipIdx k).mapM f = .ok bs := by
  rw [exceptMapM_eq_ok_iff]
  induction h generalizing k with
  | nil => exact .nil
  | cons hab _ ih => exact .cons (hab k) (ih (k + 1))

/-- Steps that know the place of their item give a list when each of them gives its item. -/
theorem mapM_zipIdx_eq_ok_iff {f : α × Nat → Except ε β} {as : List α} {bs : List β} :
    as.zipIdx.mapM f = .ok bs ↔ bs.length = as.length ∧
      ∀ i a, as[i]? = some a → ∃ b, bs[i]? = some b ∧ f (a, i) = .ok b := by
  rw [exceptMapM_eq_ok_iff, List.forall₂_iff_get]
  constructor
  · rintro ⟨hlength, h⟩
    rw [List.length_zipIdx] at hlength
    refine ⟨hlength.symm, fun i a ha => ?_⟩
    obtain ⟨hi, rfl⟩ := List.getElem?_eq_some_iff.1 ha
    have hb : i < bs.length := hlength ▸ hi
    refine ⟨bs[i], List.getElem?_eq_getElem hb, ?_⟩
    simpa using h i (by simpa using hi) hb
  · rintro ⟨hlength, h⟩
    refine ⟨List.length_zipIdx.trans hlength.symm, fun i hi _ => ?_⟩
    rw [List.length_zipIdx] at hi
    obtain ⟨b, hb, hf⟩ := h i as[i] (List.getElem?_eq_getElem hi)
    obtain ⟨hbi, rfl⟩ := List.getElem?_eq_some_iff.1 hb
    simpa using hf

/-- Steps that know the place of their item fail as the first of them that fails. -/
theorem mapM_zipIdx_eq_error {f : α × Nat → Except ε β} {as : List α} {i : Nat} {a : α} {err : ε}
    (ha : as[i]? = some a) (hbefore : ∀ j < i, ∀ b, as[j]? = some b → ∃ c, f (b, j) = .ok c)
    (h : f (a, i) = .error err) : as.zipIdx.mapM f = .error err := by
  have hat : as.zipIdx[i]? = some (a, i) := by simp [ha]
  obtain ⟨hi, hget⟩ := List.getElem?_eq_some_iff.1 hat
  rw [← errorOf?_eq_some_iff, errorOf?_mapM, List.findSome?_eq_some_iff]
  refine ⟨as.zipIdx.take i, (a, i), as.zipIdx.drop (i + 1), ?_, errorOf?_eq_some_iff.2 h, ?_⟩
  · rw [← hget, ← List.drop_eq_getElem_cons, List.take_append_drop]
  · rintro ⟨b, j⟩ hp
    obtain ⟨k, hk⟩ := List.mem_iff_getElem?.1 hp
    obtain ⟨hki, hb, rfl⟩ : k < i ∧ as[k]? = some b ∧ k = j := by
      simpa [List.getElem?_take, Option.map_eq_some_iff] using hk
    exact errorOf?_eq_none_iff.2 (hbefore k hki b hb)
end RecordProjection
