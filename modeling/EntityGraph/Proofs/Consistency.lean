import EntityGraph.Proofs.Input.Faults
import EntityGraph.Proofs.Reporting

/-!
# Reports are consistent

A report tells how a run went in several places: in the errors of the audit and of the compilation,
in the outcomes of the steps, in the artifacts, in the manifest that lists them and in the number of
entities.  Each step writes some of these places, and a run can end after any step, also when it
goes on after an audit that has found errors.  However it ends, the places tell the same.

* `Source`: what a run starts from;
* `Balanced`: a report whose errors are those of its steps, and the steps that keep it so;
* `Consistent`: a report all of whose places tell the same;
* `Ending.consistent`: each way in which a run ends leads to such a report;
* `run_consistent`: every run gives one.
-/

namespace EntityGraph.Pipeline

open Outcome

/-! ## What a run starts from -/

/-- What a run starts from: a text, a value, or definitions that have been read already. -/
inductive Source where
  | text (content : String)
  | data (raw : Value)
  | definitions (d : Definitions) (c : Configuration)

namespace Source

/-- The definitions and the settings that a run works with. -/
def reading [Limits] : Source → Except Failure (Definitions × Configuration)
  | .text content => (Input.parseText content).value
  | .data raw => (Input.parse raw).value
  | .definitions d c => .ok (d, c)

def run [Limits] (o : Options) : Source → Logged (Except Failure Report)
  | .text content => generateFrom o (Input.parseText content)
  | .data raw => generateFrom o (Input.parse raw)
  | .definitions d c => generate o d c

/-- The entities of a run, none if they cannot be read. -/
def models [Limits] (s : Source) : List Model :=
  match s.reading with
  | .ok (d, _) => d.models
  | .error _ => []

/-- The steps of a run that reaches its end. -/
def stepNames : Source → List String
  | .text _ | .data _ => ["Parse Models", "Validate Models", "Compile", "Collect Artifacts"]
  | .definitions _ _ => ["Validate Models", "Compile", "Collect Artifacts"]

/-- Definitions that are read, or refused for what is wrong with them; or such as have been read. -/
def IsReadable [Limits] : Source → Prop
  | .text content => ∀ failure, (Input.parseText content).value = .error failure →
      ∃ vs, failure = .invalidDefinitions vs
  | .data raw => ∀ failure, (Input.parse raw).value = .error failure →
      ∃ vs, failure = .invalidDefinitions vs
  | .definitions d _ => ∃ raw settings, (Input.parse raw).value = .ok (d, settings)

end Source

/-! ## Errors and steps -/

/-- A report has no error exactly if all its steps have succeeded. -/
def Balanced (r : Report) : Prop :=
  (r.validationErrors = [] ∧ r.generationErrors = []) ↔ ∀ m ∈ r.steps, m.success = true

/-- A step keeps a report balanced if it fails exactly if it adds an error. -/
theorem Balanced.step {r r' : Report} {m : StepMetric} (h : Balanced r)
    (hSteps : r'.steps = r.steps ++ [m])
    (hErrors : (r'.validationErrors = [] ∧ r'.generationErrors = []) ↔
      (r.validationErrors = [] ∧ r.generationErrors = []) ∧ m.success = true) : Balanced r' := by
  rw [Balanced, hErrors, hSteps, List.forall_mem_append, List.forall_mem_singleton]
  exact and_congr_left fun _ => h

section

variable {o : Options} {d : Definitions} {c : Configuration} {fs : Audit.Findings} {r : Report}

theorem audited_steps (fs : Audit.Findings) (r : Report) :
    ∃ elapsed detail, (audited o c fs r).steps =
      r.steps ++ [⟨"Validate Models", accepts o c fs, elapsed, detail⟩] := by
  unfold audited recordAudit withStep
  split
  · exact ⟨_, _, rfl⟩
  · exact ⟨_, _, rfl⟩

theorem audited_output : (audited o c fs r).output = r.output := by
  unfold audited recordAudit withStep
  split <;> rfl

theorem Balanced.audited (h : Balanced r) : Balanced (audited o c fs r) := by
  obtain ⟨elapsed, detail, hSteps⟩ := audited_steps (o := o) (c := c) fs r
  refine h.step hSteps ?_
  cases hAccepts : accepts o c fs with
  | true =>
    obtain ⟨hValidation, hGeneration⟩ := audited_of_accepts hAccepts r
    rw [hValidation, hGeneration]
    simp
  | false =>
    rcases audited_errors hAccepts r with hSome | hSome
    · simp [hSome]
    · simp [hSome]

theorem Balanced.compiled (h : Balanced r) : Balanced (compiled d r) :=
  h.step rfl (by simp [Pipeline.compiled, withStep])

theorem Balanced.uncompiled (h : Balanced r) (failure : Failure) :
    Balanced (uncompiled d failure r) :=
  h.step rfl (by simp [Pipeline.uncompiled, withStep])

theorem Balanced.collected (h : Balanced r) (output : Output) : Balanced (collected output r) :=
  h.step rfl (by simp [Pipeline.collected, recordArtifacts, withStep])

end

/-! ## Consistent reports -/

/-- A report that has an output and its three artifacts. -/
def Complete (report : Report) : Prop :=
  ∃ output, report.output = some output ∧
    report.manifest.artifacts.map (fun a => (a.name, a.content)) =
      [("schema.graphql", output.schemaText), ("documents.graphql", output.documentText),
        ("resolvers.py", output.source)]

/-- A report all of whose places tell the same about a run with some steps over some entities. -/
structure Consistent (names : List String) (models : List Model) (report : Report) : Prop where
  errors : report.success = true ↔ report.validationErrors = [] ∧ report.generationErrors = []
  steps : report.success = true ↔ ∀ m ∈ report.steps, m.success = true
  manifest : report.manifest.success = report.success ∧
    report.manifest.errors = report.generationErrors
  order : report.steps.map (·.name) <+: names
  artifacts : report.manifest.artifacts = [] ∧ report.output = none ∨ Complete report
  compiled : Complete report ↔ ∃ m ∈ report.steps, m.name = "Compile" ∧ m.success = true
  processed : Complete report ↔ report.processed = models.length ∧ report.output.isSome = true
  delivered : report.success = true → Complete report

section

variable {names : List String} {models : List Model} {r : Report}

theorem settle_steps_iff (h : Balanced r) :
    (settle r).success = true ↔ ∀ m ∈ (settle r).steps, m.success = true :=
  (settle_success r).trans h

/-- A run without output and with an error. -/
theorem Consistent.of_failed (hBalanced : Balanced r) (hOrder : r.steps.map (·.name) <+: names)
    (hArtifacts : r.manifest.artifacts = []) (hOutput : r.output = none)
    (hCompile : ∀ m ∈ r.steps, m.name = "Compile" → m.success = false)
    (hErrors : r.validationErrors ≠ [] ∨ r.generationErrors ≠ []) :
    Consistent names models (settle r) := by
  have hIncomplete : ¬ Complete (settle r) := by
    rintro ⟨output, hSome, -⟩
    cases hOutput.symm.trans hSome
  have hFailed : ¬ (settle r).success = true := by
    intro hSuccess
    obtain ⟨hValidation, hGeneration⟩ := (settle_success r).mp hSuccess
    exact hErrors.elim (fun h => h hValidation) fun h => h hGeneration
  refine {
    errors := settle_success r
    steps := settle_steps_iff hBalanced
    manifest := ⟨rfl, rfl⟩
    order := hOrder
    artifacts := .inl ⟨hArtifacts, hOutput⟩
    compiled := iff_of_false hIncomplete ?_
    processed := iff_of_false hIncomplete ?_
    delivered := fun hSuccess => absurd hSuccess hFailed }
  · rintro ⟨m, hm, hName, hSuccess⟩
    cases (hCompile m hm hName).symm.trans hSuccess
  · rintro ⟨-, hSome⟩
    cases (congrArg Option.isSome hOutput).symm.trans hSome

/-- A run with an output and its artifacts. -/
theorem Consistent.of_collected {output : Output} (hBalanced : Balanced r)
    (hOrder : r.steps.map (·.name) <+: names)
    (hArtifacts : r.manifest.artifacts = artifactsOf output) (hOutput : r.output = some output)
    (hCompile : ∃ m ∈ r.steps, m.name = "Compile" ∧ m.success = true)
    (hProcessed : r.processed = models.length) : Consistent names models (settle r) := by
  have hComplete : Complete (settle r) :=
    ⟨output, hOutput, congrArg (List.map fun a => (a.name, a.content)) hArtifacts⟩
  exact {
    errors := settle_success r
    steps := settle_steps_iff hBalanced
    manifest := ⟨rfl, rfl⟩
    order := hOrder
    artifacts := .inr hComplete
    compiled := iff_of_true hComplete hCompile
    processed := iff_of_true hComplete ⟨hProcessed, congrArg Option.isSome hOutput⟩
    delivered := fun _ => hComplete }

end

/-! ## Whole runs -/

/-- A report before the audit. -/
structure Begun (names : List String) (r : Report) : Prop where
  balanced : Balanced r
  names_eq : r.steps.map (·.name) = names
  uncompiled : "Compile" ∉ names
  artifacts : r.manifest.artifacts = []
  output : r.output = none

section

variable {o : Options} {d : Definitions} {c : Configuration} {names : List String}
  {r report : Report}

/-- The names of the steps taken when the audit is over. -/
theorem Begun.audited_names (h : Begun names r) (fs : Audit.Findings) :
    (audited o c fs r).steps.map (·.name) = names ++ ["Validate Models"] := by
  obtain ⟨elapsed, detail, hSteps⟩ := audited_steps (o := o) (c := c) fs r
  rw [hSteps, List.map_append, h.names_eq]
  rfl

theorem Begun.audited_compile (h : Begun names r) {fs : Audit.Findings} {m : StepMetric}
    (hm : m ∈ (audited o c fs r).steps) : m.name ≠ "Compile" := by
  have hName : m.name ∈ names ++ ["Validate Models"] := by
    rw [← h.audited_names (o := o) (c := c) fs]
    exact List.mem_map_of_mem hm
  intro hEq
  rw [hEq, List.mem_append] at hName
  rcases hName with hName | hName
  · exact h.uncompiled hName
  · simp at hName

/-- However a run ends, its report is consistent. -/
theorem Ending.consistent [Limits] (h : Begun names r) (hEnding : Ending o d c r report) :
    Consistent (names ++ ["Validate Models", "Compile", "Collect Artifacts"]) d.models report := by
  cases hEnding with
  | @stopped fs hAudit hRefused hStrict =>
    refine .of_failed h.balanced.audited ?_ ?_ ?_ ?_ (audited_errors hRefused r)
    · rw [h.audited_names]
      exact (List.prefix_append_right_inj names).mpr ⟨_, rfl⟩
    · rw [audited_manifest, h.artifacts]
    · rw [audited_output, h.output]
    · exact fun m hm hName => absurd hName (h.audited_compile hm)
  | @failed fs failure hAudit hOn hCompile =>
    refine .of_failed (h.balanced.audited.uncompiled failure) ?_ ?_ ?_ ?_ (.inr ?_)
    · rw [uncompiled, withStep, List.map_append, h.audited_names, List.append_assoc]
      exact (List.prefix_append_right_inj names).mpr ⟨_, rfl⟩
    · exact (audited_manifest fs r) ▸ h.artifacts
    · exact audited_output.trans h.output
    · intro m hm hName
      rcases List.mem_append.mp hm with hm | hm
      · exact absurd hName (h.audited_compile hm)
      · rw [List.mem_singleton.mp hm]
    · exact List.append_ne_nil_of_right_ne_nil _ (List.cons_ne_nil _ _)
  | @finished fs output hAudit hOn hCompile =>
    have hStep : ⟨"Compile", true, (Timer.instant "compile").elapsed, sizeText d⟩ ∈
        (collected output (compiled d (audited o c fs r))).steps :=
      List.mem_append_left _ (List.mem_append_right _ (List.mem_singleton_self _))
    refine .of_collected (h.balanced.audited.compiled.collected output)
      ?_ ?_ rfl ⟨_, hStep, rfl, rfl⟩ rfl
    · rw [collected, recordArtifacts, withStep, List.map_append, compiled, withStep,
        List.map_append, h.audited_names, List.append_assoc, List.append_assoc]
      exact List.prefix_rfl
    · change (audited o c fs r).manifest.artifacts ++ artifactsOf output = artifactsOf output
      rw [audited_manifest, h.artifacts, List.nil_append]

end

/-- A text that is refused comes with a violation. -/
theorem parseText_faulty [Limits] {text : String} {vs : List Violation}
    (h : (Input.parseText text).value = .error (.invalidDefinitions vs)) : vs ≠ [] := by
  unfold Input.parseText at h
  split at h
  · rename_i failure hParse
    obtain rfl := Except.error.inj h
    rcases Markup.parse_expected text _ hParse with ⟨reason, hReason⟩ | hRaised
    · cases hReason
      exact List.cons_ne_nil _ _
    · exact absurd hRaised (not_raised_invalidDefinitions vs)
  · exact Input.parse_faulty h

/-- A run that reads its definitions gives a consistent report. -/
theorem generateFrom_consistent [Limits] (o : Options)
    {reading : Logged (Except Failure (Definitions × Configuration))}
    (hReadable : ∀ failure, reading.value = .error failure →
      ∃ vs, vs ≠ [] ∧ failure = .invalidDefinitions vs)
    (hKinds : ∀ d c, reading.value = .ok (d, c) →
      ∀ m ∈ d.models, ∀ op ∈ m.operations, ∃ kind, op.kind? = .ok kind) :
    ∃ report, (generateFrom o reading).value = .ok report ∧
      Consistent ["Parse Models", "Validate Models", "Compile", "Collect Artifacts"]
        (match reading.value with | .ok (d, _) => d.models | .error _ => []) report := by
  rw [generateFrom_value]
  cases hReading : reading.value with
  | ok read =>
    obtain ⟨d, c⟩ := read
    obtain ⟨report, hRun⟩ := resume_ok (o := o) (c := c) (hKinds d c hReading)
      (readable d c (Timer.instant "parse_models"))
    refine ⟨report, hRun, ?_⟩
    have hBegun : Begun ["Parse Models"] (readable d c (Timer.instant "parse_models")) :=
      ⟨by simp [Balanced, readable, withStep], rfl, by decide, rfl, rfl⟩
    exact (resume_eq_ok.mp hRun).consistent hBegun
  | error failure =>
    obtain ⟨vs, hSome, rfl⟩ := hReadable failure hReading
    refine ⟨_, rfl, .of_failed ?_ ⟨_, rfl⟩ rfl rfl ?_ (.inr ?_)⟩
    · simp [Balanced, unreadable, withStep, hSome]
    · simp [unreadable, withStep]
    · simp [unreadable, withStep, hSome]

/-- Every run over definitions that are read or refused gives a report, and the report is
consistent: it tells success exactly if no error was found and no step failed, and the manifest says
the same; the steps are taken in their order; there are either no artifacts or those of the output,
these exactly if the definitions were compiled; and a run without artifacts does not succeed. -/
theorem run_consistent [Limits] (o : Options) {s : Source} (h : s.IsReadable) :
    ∃ report, (s.run o).value = .ok report ∧ Consistent s.stepNames s.models report := by
  cases s with
  | text content =>
    refine generateFrom_consistent o (fun failure hError => ?_) fun d c hRead => ?_
    · obtain ⟨vs, rfl⟩ := h failure hError
      exact ⟨vs, parseText_faulty hError, rfl⟩
    · exact kinds_of_parseText hRead
  | data raw =>
    refine generateFrom_consistent o (fun failure hError => ?_) fun d c hRead => ?_
    · obtain ⟨vs, rfl⟩ := h failure hError
      exact ⟨vs, Input.parse_faulty hError, rfl⟩
    · exact kinds_of_parse hRead
  | definitions d c =>
    obtain ⟨raw, settings, hParse⟩ := h
    obtain ⟨report, hRun⟩ := resume_ok (o := o) (c := c) (kinds_of_parse hParse)
      { project := c.project }
    have hBegun : Begun [] { project := c.project } :=
      ⟨by simp [Balanced], rfl, by simp, rfl, rfl⟩
    exact ⟨report, hRun, (resume_eq_ok.mp hRun).consistent hBegun⟩

/-- A value that reads as a book on a shelf that is not declared, for a run that is not strict. -/
def unshelvedValue : Value :=
  Value.record [("models", .list [Value.record [("name", .text "Book"), ("properties", .list []),
      ("relationships", .list [Value.record [("name", .text "shelf"), ("type", .text "Shelf")]])]]),
    ("config", Value.record [("strict_validation", .bool false)])]

/-- The run goes on after the audit has found an error, and the compilation finds it again. -/
theorem unshelved_consistent :
    ∃ report, ((Source.data unshelvedValue).run {}).value = .ok report ∧
      report.steps.map (fun m => (m.name, m.success)) =
        [("Parse Models", true), ("Validate Models", false), ("Compile", false)] ∧
      Consistent ["Parse Models", "Validate Models", "Compile", "Collect Artifacts"]
        (Source.data unshelvedValue).models report := by
  have hReadable : (Source.data unshelvedValue).IsReadable := by
    intro failure hError
    have hParse : ((Input.parse unshelvedValue).value.toOption).isSome = true := by rfl
    rw [hError] at hParse
    cases hParse
  obtain ⟨report, hRun, hConsistent⟩ := run_consistent {} hReadable
  have hSteps : ((Source.data unshelvedValue).run {}).value.toOption.map
      (fun r => r.steps.map fun m => (m.name, m.success)) =
        some [("Parse Models", true), ("Validate Models", false), ("Compile", false)] := by
    decide +kernel
  rw [hRun] at hSteps
  exact ⟨report, hRun, Option.some.inj hSteps, hConsistent⟩

end EntityGraph.Pipeline
