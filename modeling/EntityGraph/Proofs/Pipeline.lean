import EntityGraph.Proofs.Clean
import EntityGraph.Proofs.Run

/-!
# Runs of the pipeline over clean definitions

An audit without errors and warnings lets a run go on under any options, and then the run succeeds
if the compilation does.

* `generate_success_iff`: when the run succeeds;
* `clean_succeeds_iff`: for which clean definitions it does.
-/

namespace EntityGraph

namespace Pipeline

variable [Limits] {o : Options} {d : Definitions} {c : Configuration} {fs : Audit.Findings}

/-- A run over definitions whose audit reports neither errors nor warnings succeeds exactly if the
compilation does. -/
theorem generate_success_iff
    (hAudit : (Audit.full d.models (o.scalars.getD Schema.defaultScalars)).value = .ok fs)
    (hErrors : fs.hasErrors = false) (hWarnings : fs.hasWarnings = false) :
    ∃ report, (generate o d c).value = .ok report ∧
      (report.success = true ↔ ∃ output, (compile c o.scalars d.models).value = .ok output) := by
  have hAccepts : accepts o c fs = true := by simp [accepts, passes, hErrors, hWarnings]
  obtain ⟨hValidation, hGeneration⟩ := audited_of_accepts hAccepts { project := c.project }
  cases hCompile : (compile c o.scalars d.models).value with
  | ok output =>
    refine ⟨_, resume_eq_ok.mpr (.finished hAudit (.inl hAccepts) hCompile), ?_⟩
    simp [settle_success, collected, recordArtifacts, compiled, withStep, hValidation, hGeneration]
  | error failure =>
    refine ⟨_, resume_eq_ok.mpr (.failed hAudit (.inl hAccepts) hCompile), ?_⟩
    simp [settle_success, uncompiled, withStep]

end Pipeline

/-- Parsed definitions with a clean audit compile, and a run over them succeeds, exactly if no
entity has the name of an input or a result type and all validators can be written: no number in
them is too long, and no value has more levels than there is room for.  Otherwise the compilation
fails for such a value or for the name of a type that is there already. -/
theorem clean_succeeds_iff [Limits] {raw : Value} {d : Definitions} {settings config : Configuration}
    {fs : Audit.Findings} (hParse : (Input.parse raw).value = .ok (d, settings))
    (hAudit : (Audit.full d.models Schema.defaultScalars).value = .ok fs)
    (hErrors : fs.hasErrors = false) (hWarnings : fs.hasWarnings = false)
    (hPlain : config.formatSource = false) :
    ((∃ output, (compile config none d.models).value = .ok output) ↔
      Separate d.models ∧ ∀ m ∈ d.models, m.HasText) ∧
    (∀ failure, (compile config none d.models).value = .error failure →
      (∃ flaw : Value.Flaw, failure = flaw.failure) ∨ ∃ name, failure = .duplicateType name) ∧
    ∀ o : Options, o.scalars = none → ∃ report, (Pipeline.generate o d config).value = .ok report ∧
      (report.success = true ↔ Separate d.models ∧ ∀ m ∈ d.models, m.HasText) := by
  have hSound : Sound d.models := .of_parse hParse hAudit hErrors hWarnings
  have hCompile := hSound.compile_ok_iff hPlain
  refine ⟨hCompile, fun failure hError => hSound.compile_error hPlain hError, fun o hScalars => ?_⟩
  have hFull : (Audit.full d.models (o.scalars.getD Schema.defaultScalars)).value = .ok fs := by
    rw [hScalars]
    exact hAudit
  obtain ⟨report, hReport, hSuccess⟩ :=
    Pipeline.generate_success_iff (c := config) hFull hErrors hWarnings
  rw [hScalars] at hSuccess
  exact ⟨report, hReport, hSuccess.trans hCompile⟩

/-- An entity with an operation that shows it. -/
def shownBook : Model :=
  ⟨"Book", [⟨"title", "String", false, true, false, []⟩], [], [⟨"get", "Show", [], []⟩]⟩

/-- An entity with the name of the input type of this operation. -/
def bookShowInput : Model := ⟨"BookShowInput", [], [], []⟩

/-- A value that reads as the two entities. -/
def shownBookValue : Value :=
  .list [Value.record [("name", .text "Book"),
      ("properties", .list [Value.record [("name", .text "title"), ("type", .text "String")]]),
      ("operations", .list [Value.record [("name", .text "get"), ("type", .text "Show")]])],
    Value.record [("name", .text "BookShowInput"), ("properties", .list [])]]

/-- An audit of the two entities finds nothing, and yet they do not compile. -/
theorem shownBook_fails :
    (∃ d settings fs, (Input.parse shownBookValue).value = .ok (d, settings) ∧
      d.models = [shownBook, bookShowInput] ∧
      (Audit.full d.models Schema.defaultScalars).value = .ok fs ∧
      fs.hasErrors = false ∧ fs.hasWarnings = false) ∧
    ∀ config : Configuration, config.formatSource = false →
      ¬ ∃ output, (compile config none [shownBook, bookShowInput]).value = .ok output := by
  have hParse : (Input.parse shownBookValue).value =
      .ok (.ofModels [shownBook, bookShowInput], {}) := by rfl
  have hAudit : (Audit.full [shownBook, bookShowInput] Schema.defaultScalars).value =
      .ok [Audit.Concern.finding (.modelWithoutOperations "BookShowInput")] := by rfl
  have hErrors : Audit.Findings.hasErrors
      [Audit.Concern.finding (.modelWithoutOperations "BookShowInput")] = false := by rfl
  have hWarnings : Audit.Findings.hasWarnings
      [Audit.Concern.finding (.modelWithoutOperations "BookShowInput")] = false := by rfl
  refine ⟨⟨_, _, _, hParse, rfl, hAudit, hErrors, hWarnings⟩, fun config hPlain hSome => ?_⟩
  obtain ⟨hSeparate, -⟩ :=
    (clean_succeeds_iff hParse hAudit hErrors hWarnings hPlain).1.mp hSome
  have hApart := hSeparate shownBook List.mem_cons_self ⟨"get", "Show", [], []⟩ List.mem_cons_self
    .view (by rfl) bookShowInput (List.mem_cons_of_mem _ List.mem_cons_self)
  exact hApart.1 (by rfl)

end EntityGraph
