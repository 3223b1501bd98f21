import RecordProjection.CommandLine.Run
import RecordProjection.Proofs.Descriptor.Building
import RecordProjection.Proofs.Engine.Transparency
import RecordProjection.Proofs.Record.Contents

/-!
# Printing never fails

Payloads are read from JSON texts, so the records of a command line hold nothing that has no printed
form, neither decimals nor integers beyond the limit on digits, and no command line ends because of
one.

## Main definitions

* `CommandLine.Unrefused` : a result is not refused because a value has no printed form.
-/
namespace RecordProjection

section Records
variable {r : Registry} {maxDepth : Nat} {base : String} {shape : Shape} {d : Descriptor}
  {joiner : Option Joiner} {raw out : Value} {origin : String}

/-- A record of a resolved descriptor conforms to it. -/
theorem Descriptor.conforms_of_record (hd : r.resolve maxDepth base shape = .ok d)
    (h : d.record joiner raw origin = .ok out) :
    ∃ v, d.unflattened joiner raw = .ok v ∧ d.Conforms v out := by
  obtain ⟨v, hv, hout⟩ := record_eq_ok_iff.1 h
  exact ⟨v, hv, conforms_of_project (Registry.distinctKeys_of_resolve hd) _ _ _ hout⟩

/-- It is made of parts of its payload, and of what coercions give. -/
theorem Descriptor.built_of_record {isLeaf isOut : Value → Bool}
    (hkinds : Value.RecordedAs isLeaf isOut) (hd : r.resolve maxDepth base shape = .ok d)
    (h : d.record joiner raw origin = .ok out) (hraw : raw.Built isLeaf) : out.Built isOut := by
  obtain ⟨v, hv, hconforms⟩ := conforms_of_record hd h
  exact d.built_of_conforms hkinds v out hconforms (built_unflattened hkinds.mapping hraw hv)

end Records

/-! ## Records of a new engine -/

namespace Engine
variable {e : Engine} {model : String} {input : ShapeInput} {flat flatLists : Option Bool}

/-- A new engine resolves the descriptors that it gives. -/
theorem exists_resolve_of_describe {d : Descriptor}
    (h : (e.describe e.freshMemory model input flat flatLists).result = .ok d) :
    ∃ shape, e.registry.resolve e.maxDepth.1 model shape = .ok d := by
  rw [(gives_describe (faithful_freshMemory e) model input flat flatLists).result_eq] at h
  obtain ⟨shape, -, h⟩ := exceptBind_eq_ok_iff.1 h
  exact ⟨shape, exceptMapError_eq_ok_iff.1 h⟩

/-- The record of a JSON value that was read is made of what can be printed. -/
theorem built_of_one {raw out : Value} (hraw : raw.Built Value.isReadScalar)
    (h : (e.one e.freshMemory model input flat flatLists raw).result = .ok out) :
    out.Built Value.isPrintedScalar := by
  obtain ⟨d, hd, h⟩ := exceptBind_eq_ok_iff.1 h
  obtain ⟨shape, hshape⟩ := exists_resolve_of_describe hd
  have hrecord : d.record e.joiner raw "root" = .ok out := exceptMapError_eq_ok_iff.1 h
  exact Descriptor.built_of_record Value.recordedAs_printed hshape hrecord hraw

/-- So is every record of a list of such values. -/
theorem built_of_list {items outs : List Value} (hitems : ∀ v ∈ items, v.Built Value.isReadScalar)
    (h : (e.list e.freshMemory model input flat flatLists (.list items)).result = .ok outs) :
    ∀ out ∈ outs, out.Built Value.isPrintedScalar := by
  obtain ⟨d, hd, h⟩ := exceptBind_eq_ok_iff.1 h
  obtain ⟨shape, hshape⟩ := exists_resolve_of_describe hd
  have hrecords : d.records e.joiner items = .ok outs := exceptMapError_eq_ok_iff.1 h
  intro out hout
  obtain ⟨⟨item, i⟩, hitem, hrecord⟩ := exists_of_mem_mapM hrecords hout
  have hraw := hitems item (List.fst_mem_of_mem_zipIdx hitem)
  exact Descriptor.built_of_record Value.recordedAs_printed hshape hrecord hraw

end Engine

namespace CommandLine

/-- A result is not refused because a value has no printed form. -/
def Unrefused {α : Type} (result : Except Problem α) : Prop :=
  ∀ part, result ≠ .error (.unprintable part)

section Unrefused
variable {α β ε : Type}

theorem unrefused_ok (a : α) : Unrefused (.ok a) := by
  intro part h
  cases h

theorem unrefused_error {problem : Problem} (h : ∀ part, problem ≠ .unprintable part) :
    Unrefused (.error problem : Except Problem α) := by
  intro part hpart
  exact h part (Except.error.inj hpart)

theorem unrefused_mapError {f : ε → Problem} (hf : ∀ err part, f err ≠ .unprintable part)
    (result : Except ε α) : Unrefused (result.mapError f) := by
  intro part h
  cases result with
  | ok a => cases h
  | error err => exact hf err part (Except.error.inj h)

theorem Unrefused.bind {result : Except Problem α} {f : α → Except Problem β}
    (h : Unrefused result) (hf : ∀ a, result = .ok a → Unrefused (f a)) :
    Unrefused (result.bind f) := by
  intro part hpart
  cases result with
  | error err => exact h part (congrArg _ (Except.error.inj hpart))
  | ok a => exact hf a rfl part hpart

end Unrefused

/-! ## Payloads -/

theorem built_of_readPayload {text : List Char} {payload : Value}
    (h : readPayload text = .ok payload) : payload.Built Value.isReadScalar := by
  rw [readPayload] at h
  split at h
  · next v hread => exact Except.ok.inj h ▸ Json.built_of_read hread
  · cases h
  · cases h

theorem unrefused_readPayload (text : List Char) : Unrefused (readPayload text) := by
  intro part h
  rw [readPayload] at h
  split at h <;> cases h

/-- A payload is read from a text, or cannot be come by. -/
theorem loadPayload_cases (files : Files) (input : String) (path : Argument) :
    (∃ text, (loadPayload files input path).1 = readPayload text) ∨
    ∃ problem, (loadPayload files input path).1 = .error problem ∧
      ∀ part, problem ≠ .unprintable part := by
  rw [loadPayload.eq_def]
  split
  · exact .inr ⟨_, rfl, by simp⟩
  · dsimp only
    split
    · exact .inl ⟨_, rfl⟩
    · split
      · exact .inr ⟨_, rfl, by simp⟩
      · split
        · exact .inl ⟨_, rfl⟩
        · exact .inr ⟨_, rfl, by simp⟩

/-- A payload is made of JSON scalars within the limit on digits. -/
theorem built_of_loadPayload {files : Files} {input : String} {path : Argument} {payload : Value}
    (h : (loadPayload files input path).1 = .ok payload) : payload.Built Value.isReadScalar := by
  rcases loadPayload_cases files input path with ⟨text, htext⟩ | ⟨problem, hproblem, -⟩
  · exact built_of_readPayload (htext ▸ h)
  · rw [hproblem] at h
    cases h

theorem unrefused_loadPayload (files : Files) (input : String) (path : Argument) :
    Unrefused (loadPayload files input path).1 := by
  rcases loadPayload_cases files input path with ⟨text, htext⟩ | ⟨problem, hproblem, hne⟩
  · rw [htext]
    exact unrefused_readPayload text
  · rw [hproblem]
    exact unrefused_error hne

/-! ## Commands -/

/-- A value that is made of what can be printed is printed. -/
theorem unrefused_printValue {v : Value} (h : v.Built Value.isPrintedScalar) :
    Unrefused (printValue v) := by
  rw [printValue, Value.indentedJson, Value.unprintable?_of_built h]
  exact unrefused_ok _

theorem unrefused_printing {α : Type} {o : Outcome α} {print : α → Except Problem String}
    (h : ∀ a, o.result = .ok a → Unrefused (print a)) : Unrefused (printing o print).1 := by
  have hfailure : Unrefused (o.result.mapError Problem.failure) :=
    unrefused_mapError (by simp) _
  refine hfailure.bind ?_
  intro a ha
  exact h a (exceptMapError_eq_ok_iff.1 ha)

theorem unrefused_projectPayload (e : Engine) (model shape : Argument) (flat flatLists : Bool)
    {payload : Value} (hpayload : payload.Built Value.isReadScalar) :
    Unrefused (projectPayload e model shape flat flatLists payload).1 := by
  rw [projectPayload.eq_def]
  split
  · exact unrefused_error (by simp)
  · next shape =>
    have hshape : Unrefused (printing (e.parse e.freshMemory shape) fun s => .ok s.text).1 :=
      unrefused_printing fun s _ => unrefused_ok _
    exact hshape.bind fun text _ => unrefused_error (by simp)
  · next shape model items =>
    refine unrefused_printing ?_
    intro outs houts
    have hitems := Value.Built.of_mem_list (fun _ => rfl) hpayload
    exact unrefused_printValue (.list (Engine.built_of_list hitems houts))
  · refine unrefused_printing ?_
    intro out hout
    exact unrefused_printValue (Engine.built_of_one hpayload hout)

/-- No command is refused because a value has no printed form. -/
theorem unrefused_runCommand (e : Engine) (files : Files) (input : String) (c : Command) :
    Unrefused (runCommand e files input c).1 := by
  cases c with
  | parse shape => exact unrefused_printing fun s _ => unrefused_ok _
  | fields model => exact unrefused_mapError (by simp) _
  | project model shape path flat flatLists =>
    rw [runCommand]
    split
    · next problem input' hload =>
      have hproblem : Unrefused (.error problem : Except Problem Value) := by
        simpa [hload] using unrefused_loadPayload files input path
      intro part h
      exact hproblem part (congrArg _ (Except.error.inj h))
    · next payload input' hload =>
      exact unrefused_projectPayload e model shape flat flatLists
        (built_of_loadPayload (by rw [hload]))

theorem unrefused_loadRegistry (files : Files) (schema : Option Argument) :
    Unrefused (loadRegistry files schema) := by
  rw [loadRegistry.eq_def]
  split
  · exact unrefused_ok _
  · exact unrefused_error (by simp)
  · dsimp only
    split
    · exact unrefused_error (by simp)
    · exact unrefused_mapError (by simp) _

theorem eq_error_of_endingOf {result : Except Problem String} {problem : Problem}
    (h : endingOf result = .failed problem) : result = .error problem := by
  cases result with
  | ok text => cases h
  | error problem' => rw [Ending.failed.inj h]

/-- No command line ends because a value has no printed form. -/
theorem ending_ne_unprintable (files : Files) (input : String) (arguments : List String)
    (part : Value) : (run files input arguments).ending ≠ .failed (.unprintable part) := by
  intro h
  rw [run] at h
  split at h
  · cases h
  · next invocation _ =>
    split at h
    · next problem hproblem =>
      refine unrefused_loadRegistry files invocation.schema part ?_
      rw [hproblem, Ending.failed.inj h]
    · next registry _ =>
      exact unrefused_runCommand (.ofSettings registry .default) files input invocation.command
        part (eq_error_of_endingOf h)

end CommandLine

/-- Every record conforms to the descriptor that it was projected along, at every level; the record
of a JSON value is made of JSON scalars, dates and moments, so that no command line is ever refused
its printed form. -/
theorem Descriptor.records_conform :
    (∀ (r : Registry) (maxDepth : Nat) (base : String) (shape : Shape) (d : Descriptor)
      (joiner : Option Joiner) (raw out : Value) (origin : String),
      r.resolve maxDepth base shape = .ok d → d.record joiner raw origin = .ok out →
      ∃ v, d.unflattened joiner raw = .ok v ∧ d.Conforms v out ∧
        (raw.Built Value.isJsonScalar → out.Built Value.isPrintableScalar)) ∧
    ∀ (files : CommandLine.Files) (input : String) (arguments : List String) (part : Value),
      (CommandLine.run files input arguments).ending ≠ .failed (.unprintable part) := by
  refine ⟨?_, CommandLine.ending_ne_unprintable⟩
  intro r maxDepth base shape d joiner raw out origin hd hout
  obtain ⟨v, hv, hconforms⟩ := conforms_of_record hd hout
  exact ⟨v, hv, hconforms, built_of_record Value.recordedAs_printable hd hout⟩

/-- A contract that is asked for a date under another key, for a field that it does not have, and
for the amounts of its transactions. -/
theorem Descriptor.contract_conforms : ∃ d, Registry.builtin.resolve 2 "Contract"
    ⟨[.named "award_date" (some "awarded") none (by decide),
      .named "recipient" none none (by decide),
      .named "transactions" none (some [.named "obligated" none none (by decide)]) (by decide)],
      false, false⟩ = .ok d ∧
    ∃ v, d.unflattened none (.mapping [("transactions", .list [.mapping [("obligated", .int 12)]]),
        ("award_date", .text "2024-01-15")]) = .ok v ∧
      d.Conforms v (.mapping [("awarded", .date ⟨2024, 1, 15, by decide, by decide, by decide⟩),
        ("transactions", .list [.mapping [("obligated", .text "12")]])]) := by
  have hresolve := Eq.refl (Registry.builtin.resolve 2 "Contract"
    ⟨[.named "award_date" (some "awarded") none (by decide),
      .named "recipient" none none (by decide),
      .named "transactions" none (some [.named "obligated" none none (by decide)]) (by decide)],
      false, false⟩)
  refine ⟨_, hresolve, ?_⟩
  refine (records_conform.1 _ _ _ _ _ _ _ _ "root" hresolve ?_).imp fun v h => ⟨h.1, h.2.1⟩
  rfl

end RecordProjection
