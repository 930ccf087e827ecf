import EntityGraph.Pipeline
import EntityGraph.Proofs.Audit
import EntityGraph.Proofs.Compilation

/-!
# How runs end

A run over definitions audits them, compiles them and collects the artifacts.  It can end after each
of these steps: a strict run stops at an audit that does not pass, and a compilation that fails
leaves no artifact.  The report of a run is what the steps taken have recorded, settled.

* `Pipeline.Ending`: the three ways in which a run ends, with its report;
* `Pipeline.resume_eq_ok`: a run gives a report exactly if it ends in one of them;
* `Pipeline.compiled_of_success`: a run that succeeds has compiled its definitions, and its artifacts
  are those of the output.
-/

namespace EntityGraph.Pipeline

open Outcome

variable {o : Options} {d : Definitions} {c : Configuration}

/-- Whether the findings of an audit let a run go on as if there were none. -/
def accepts (o : Options) (c : Configuration) (fs : Audit.Findings) : Bool :=
  passes (o.failOnWarnings.getD c.failOnWarnings) fs

/-- A report with the outcome of the audit. -/
def audited (o : Options) (c : Configuration) (fs : Audit.Findings) (r : Report) : Report :=
  recordAudit (o.failOnWarnings.getD c.failOnWarnings) fs (Timer.instant "validation") r

def sizeText (d : Definitions) : String := toString d.models.length ++ " models"

/-- A report with a compilation that succeeded. -/
def compiled (d : Definitions) (r : Report) : Report :=
  withStep { r with processed := d.models.length } "Compile" (Timer.instant "compile") true
    (sizeText d)

/-- A report with a compilation that failed. -/
def uncompiled (d : Definitions) (failure : Failure) (r : Report) : Report :=
  withStep { r with generationErrors := r.generationErrors ++ [failure.text], processed := 0 }
    "Compile" (Timer.instant "compile") false (sizeText d)

/-- A report with the artifacts of an output. -/
def collected (output : Output) (r : Report) : Report :=
  recordArtifacts output (Timer.instant "collect_artifacts") r

/-! ## Steps -/

theorem audit_value (r : Report) : (audit o d c r).value =
    (Audit.full d.models (o.scalars.getD Schema.defaultScalars)).value.map
      fun fs => (accepts o c fs, audited o c fs r) := by
  simp only [audit, Logged.value_bind]
  cases (Audit.full d.models (o.scalars.getD Schema.defaultScalars)).value <;> rfl

theorem conclude_value (r : Report) : (conclude r).value = settle r := by
  unfold conclude
  cases hSuccess : (settle r).success <;> simp [hSuccess]

theorem settle_success (r : Report) :
    (settle r).success = true ↔ r.validationErrors = [] ∧ r.generationErrors = [] := by
  simp [settle]

/-! ## Audits -/

theorem errors_eq_nil {fs : Audit.Findings} (h : fs.hasErrors = false) : fs.errors = [] := by
  refine List.filter_eq_nil_iff.mpr fun f hf => ?_
  exact List.any_eq_false.mp h f hf

/-- An audit that passes leaves no error. -/
theorem audited_of_accepts {fs : Audit.Findings} (h : accepts o c fs = true) (r : Report) :
    (audited o c fs r).validationErrors = r.validationErrors ∧
      (audited o c fs r).generationErrors = r.generationErrors := by
  obtain ⟨hErrors, hWarnings⟩ : fs.hasErrors = false ∧
      (o.failOnWarnings.getD c.failOnWarnings && fs.hasWarnings) = false := by
    rw [accepts, passes, Bool.and_eq_true, Bool.not_eq_true', Bool.not_eq_true'] at h
    exact h
  have hNone : fs.errors = [] := errors_eq_nil hErrors
  refine ⟨?_, ?_⟩
  · simp [audited, recordAudit, hErrors, hWarnings, hNone, withStep]
  · simp [audited, recordAudit, hErrors, hWarnings, withStep]

/-- An audit that does not pass leaves an error. -/
theorem audited_errors {fs : Audit.Findings} (h : accepts o c fs = false) (r : Report) :
    (audited o c fs r).validationErrors ≠ [] ∨ (audited o c fs r).generationErrors ≠ [] := by
  have hRefused : fs.hasErrors = false →
      (o.failOnWarnings.getD c.failOnWarnings && fs.hasWarnings) = true := by
    intro hErrors
    simpa [accepts, passes, hErrors] using h
  cases hErrors : fs.hasErrors with
  | true =>
    obtain ⟨f, hf, hSeverity⟩ := List.any_eq_true.mp hErrors
    have hSome : fs.errors ≠ [] := List.ne_nil_of_mem (List.mem_filter.mpr ⟨hf, hSeverity⟩)
    exact Or.inl (by simp [audited, recordAudit, hErrors, withStep, hSome])
  | false =>
    have hWarnings := hRefused hErrors
    exact Or.inr (by simp [audited, recordAudit, hErrors, hWarnings, withStep])

/-- An audit records no artifact. -/
theorem audited_manifest (fs : Audit.Findings) (r : Report) :
    (audited o c fs r).manifest = r.manifest := by
  unfold audited recordAudit withStep
  split <;> rfl

/-! ## Whole runs -/

variable [Limits]

theorem compilation_value (r : Report) : (compilation o d c r).value =
    match (compile c o.scalars d.models).value with
    | .ok output => (some output, compiled d r)
    | .error failure => (none, uncompiled d failure r) := by
  simp only [compilation, Logged.value_bind]
  cases (compile c o.scalars d.models).value <;> rfl


/-- How a run that continues a report ends, with its last report. -/
inductive Ending (o : Options) (d : Definitions) (c : Configuration) (r : Report) : Report → Prop
    where
  | stopped {fs : Audit.Findings}
      (hAudit : (Audit.full d.models (o.scalars.getD Schema.defaultScalars)).value = .ok fs)
      (hRefused : accepts o c fs = false) (hStrict : o.strict.getD c.strict = true) :
      Ending o d c r (settle (audited o c fs r))
  | failed {fs : Audit.Findings} {failure : Failure}
      (hAudit : (Audit.full d.models (o.scalars.getD Schema.defaultScalars)).value = .ok fs)
      (hOn : accepts o c fs = true ∨ o.strict.getD c.strict = false)
      (hCompile : (compile c o.scalars d.models).value = .error failure) :
      Ending o d c r (settle (uncompiled d failure (audited o c fs r)))
  | finished {fs : Audit.Findings} {output : Output}
      (hAudit : (Audit.full d.models (o.scalars.getD Schema.defaultScalars)).value = .ok fs)
      (hOn : accepts o c fs = true ∨ o.strict.getD c.strict = false)
      (hCompile : (compile c o.scalars d.models).value = .ok output) :
      Ending o d c r (settle (collected output (compiled d (audited o c fs r))))

/-- What a run gives. -/
theorem resume_value (r : Report) : (resume o d c r).value =
    match (Audit.full d.models (o.scalars.getD Schema.defaultScalars)).value with
    | .error failure => .error failure
    | .ok fs =>
      if !accepts o c fs && o.strict.getD c.strict then .ok (settle (audited o c fs r))
      else
        match (compile c o.scalars d.models).value with
        | .error failure => .ok (settle (uncompiled d failure (audited o c fs r)))
        | .ok output => .ok (settle (collected output (compiled d (audited o c fs r)))) := by
  simp only [resume, Logged.value_bind, audit_value]
  cases (Audit.full d.models (o.scalars.getD Schema.defaultScalars)).value with
  | error failure => rfl
  | ok fs =>
    simp only [Except.map]
    split
    · simp only [Logged.value_bind, Logged.value_pure, conclude_value]
    · simp only [Logged.value_bind, compilation_value]
      cases (compile c o.scalars d.models).value <;>
        simp only [Logged.value_bind, Logged.value_pure, conclude_value, collect, collected]

/-- A run gives a report exactly if it ends in one of the three ways. -/
theorem resume_eq_ok {r report : Report} :
    (resume o d c r).value = .ok report ↔ Ending o d c r report := by
  rw [resume_value]
  constructor
  · intro h
    cases hAudit : (Audit.full d.models (o.scalars.getD Schema.defaultScalars)).value with
    | error failure =>
      rw [hAudit] at h
      cases h
    | ok fs =>
      simp only [hAudit] at h
      split at h
      · rename_i hStop
        obtain rfl := Except.ok.inj h
        exact .stopped hAudit (by simp_all) (by simp_all)
      · rename_i hGo
        have hOn : accepts o c fs = true ∨ o.strict.getD c.strict = false := by
          cases hAccepts : accepts o c fs <;> simp_all
        cases hCompile : (compile c o.scalars d.models).value with
        | error failure =>
          simp only [hCompile] at h
          obtain rfl := Except.ok.inj h
          exact .failed hAudit hOn hCompile
        | ok output =>
          simp only [hCompile] at h
          obtain rfl := Except.ok.inj h
          exact .finished hAudit hOn hCompile
  · intro h
    cases h with
    | stopped hAudit hRefused hStrict => simp [hAudit, hRefused, hStrict]
    | failed hAudit hOn hCompile => rcases hOn with hOn | hOn <;> simp [hAudit, hOn, hCompile]
    | finished hAudit hOn hCompile => rcases hOn with hOn | hOn <;> simp [hAudit, hOn, hCompile]

/-- A run over definitions whose operations are of known kinds gives a report. -/
theorem resume_ok (h : ∀ m ∈ d.models, ∀ op ∈ m.operations, ∃ kind, op.kind? = .ok kind)
    (r : Report) : ∃ report, (resume o d c r).value = .ok report := by
  obtain ⟨fs, hAudit⟩ := Audit.full_ok h (o.scalars.getD Schema.defaultScalars)
  simp only [resume_value, hAudit]
  split
  · exact ⟨_, rfl⟩
  · cases (compile c o.scalars d.models).value with
    | error failure => exact ⟨_, rfl⟩
    | ok output => exact ⟨_, rfl⟩

/-- What a run gives that starts by reading its definitions. -/
theorem generateFrom_value (reading : Logged (Except Failure (Definitions × Configuration))) :
    (generateFrom o reading).value =
      match reading.value with
      | .ok (d, c) => (resume o d c (readable d c (Timer.instant "parse_models"))).value
      | .error (.invalidDefinitions vs) =>
        .ok (settle (unreadable vs (Timer.instant "parse_models")))
      | .error failure => .error failure := by
  cases reading with
  | mk entries outcome =>
    cases outcome with
    | ok read => rfl
    | error failure =>
      cases failure with
      | invalidDefinitions vs =>
        simp only [generateFrom, Logged.value_bind, Logged.value_pure, conclude_value]
      | _ => rfl

/-! ## Runs that succeed -/

/-- A run that succeeds has compiled its definitions and collected the artifacts of the output. -/
theorem compiled_of_success {report : Report} (hRun : (generate o d c).value = .ok report)
    (hSuccess : report.success = true) :
    ∃ output, (compile c o.scalars d.models).value = .ok output ∧ report.output = some output ∧
      report.manifest.artifacts = artifactsOf output := by
  have hEnding : Ending o d c { project := c.project } report := resume_eq_ok.mp hRun
  cases hEnding with
  | @stopped fs hAudit hRefused hStrict =>
    obtain ⟨hValidation, hGeneration⟩ := (settle_success _).mp hSuccess
    rcases audited_errors hRefused { project := c.project } with hSome | hSome
    · exact absurd hValidation hSome
    · exact absurd hGeneration hSome
  | @failed fs failure hAudit hOn hCompile =>
    obtain ⟨-, hGeneration⟩ := (settle_success _).mp hSuccess
    simp [uncompiled, withStep] at hGeneration
  | @finished fs output hAudit hOn hCompile =>
    refine ⟨output, hCompile, rfl, ?_⟩
    simp [settle, collected, recordArtifacts, withStep, compiled, audited_manifest, Manifest.append]

end EntityGraph.Pipeline
