import EntityGraph.Input.Text
import EntityGraph.Report

/-!
# The generation pipeline

From definitions to artifacts: the definitions are read, audited and compiled, and what the
compilation gives is collected.  Every step leaves its outcome in the report.  A compilation that
fails leaves its error there and no artifact.

* `Options`: settings of a run that override the configuration;
* `Pipeline.generate`: a run over definitions;
* `Pipeline.generateFrom`: a run that starts by reading them.
-/

namespace EntityGraph

/-- Settings of a run that override those of its configuration. -/
structure Options where
  strict : Option Bool := none
  failOnWarnings : Option Bool := none
  scalars : Option (List String) := none

namespace Pipeline

def schemaArtifact : String := "schema.graphql"

def documentArtifact : String := "documents.graphql"

def handlerArtifact : String := "resolvers.py"

def optionText : Option Bool → String
  | none => Literal.null
  | some b => Literal.bool b

def announce (o : Options) : Logged Unit :=
  Logged.write .debug .generator
    ("GraphGenerator initialised: strict=" ++ optionText o.strict ++ ", fail_on_warnings=" ++
      optionText o.failOnWarnings ++ ".")

def withStep (r : Report) (name : String) (t : Timer) (success : Bool) (detail : String) : Report :=
  { r with steps := r.steps ++ [⟨name, success, t.elapsed, detail⟩] }

/-- A report settled: a run has succeeded if it met no error. -/
def settle (r : Report) : Report :=
  let success := r.validationErrors.isEmpty && r.generationErrors.isEmpty
  { r with
    success
    elapsed := (Timer.instant "").elapsed
    manifest := { r.manifest with success, errors := r.generationErrors } }

def conclude (r : Report) : Logged Report := do
  let r := settle r
  if r.success then
    Logged.write .info .generator ("Generation succeeded in " ++ r.elapsed.fixed 3 ++ "s.")
  else
    Logged.write .error .generator
      ("Generation failed: " ++ toString r.validationErrors.length ++ " validation error(s), " ++
        toString r.generationErrors.length ++ " generation error(s).")
  return r

/-! ## The audit -/

def auditDetail (fs : Audit.Findings) : String :=
  if fs.hasErrors then toString fs.errors.length ++ " error(s)"
  else if fs.hasWarnings then toString fs.warnings.length ++ " warning(s)"
  else "all checks passed"

/-- Findings that let a run go on: no error, and no warning if warnings count as errors. -/
def passes (failOnWarnings : Bool) (fs : Audit.Findings) : Bool :=
  !fs.hasErrors && !(failOnWarnings && fs.hasWarnings)

def recordAudit (failOnWarnings : Bool) (fs : Audit.Findings) (t : Timer) (r : Report) : Report :=
  let r := { r with
    validationErrors := r.validationErrors ++ fs.errors.map Audit.Finding.text
    validationWarnings := r.validationWarnings ++ fs.warnings.map Audit.Finding.text }
  let r := withStep r "Validate Models" t (passes failOnWarnings fs) (auditDetail fs)
  if !fs.hasErrors && failOnWarnings && fs.hasWarnings then
    { r with generationErrors := r.generationErrors ++
      [toString fs.warnings.length ++ " validation warning(s) treated as errors."] }
  else r

/-- The audit of the definitions: whether they pass, and the report with the outcome.  An operation
of an unknown kind stops the run. -/
def audit (o : Options) (d : Definitions) (c : Configuration) (r : Report) :
    Logged (Except Failure (Bool × Report)) := do
  let failOnWarnings := o.failOnWarnings.getD c.failOnWarnings
  let t := Timer.instant "validation"
  let outcome ← Audit.full d.models (o.scalars.getD Schema.defaultScalars)
  t.log
  match outcome with
  | .error failure => return .error failure
  | .ok fs =>
    Logged.writeAll .warning .generator (fs.warnings.map fun f => "  ⚠ " ++ f.text)
    Logged.writeAll .error .generator (fs.errors.map fun f => "  ✗ " ++ f.text)
    return .ok (passes failOnWarnings fs, recordAudit failOnWarnings fs t r)

/-! ## The compilation and its artifacts -/

def compilation [Limits] (o : Options) (d : Definitions) (c : Configuration) (r : Report) :
    Logged (Option Output × Report) := do
  let t := Timer.instant "compile"
  let size := toString d.models.length ++ " models"
  match ← compile c o.scalars d.models with
  | .ok output =>
    t.log
    return (some output, withStep { r with processed := d.models.length } "Compile" t true size)
  | .error failure =>
    Logged.write .error .generator ("Compilation failed: " ++ failure.text)
    t.log
    let r := { r with generationErrors := r.generationErrors ++ [failure.text] }
    return (none, withStep { r with processed := 0 } "Compile" t false size)

def artifactsOf (output : Output) : List Artifact := [
  .ofContent schemaArtifact output.schemaText,
  .ofContent documentArtifact output.documentText,
  .ofContent handlerArtifact output.source]

def recordArtifacts (output : Output) (t : Timer) (r : Report) : Report :=
  let manifest := r.manifest.append (artifactsOf output)
  withStep { r with manifest, output := some output } "Collect Artifacts" t true
    (toString manifest.artifacts.length ++ " artifacts, " ++
      groupedInt manifest.totalLines ++ " lines")

def collect (output : Output) (r : Report) : Logged Report := do
  let t := Timer.instant "collect_artifacts"
  t.log
  return recordArtifacts output t r

/-! ## Runs -/

/-- A run over definitions, continuing a report.  A strict run ends at an audit that does not
pass. -/
def resume [Limits] (o : Options) (d : Definitions) (c : Configuration) (r : Report) :
    Logged (Except Failure Report) := do
  match ← audit o d c r with
  | .error failure => return .error failure
  | .ok (passed, r) =>
    if !passed && o.strict.getD c.strict then return .ok (← conclude r)
    match ← compilation o d c r with
    | (some output, r) => return .ok (← conclude (← collect output r))
    | (none, r) => return .ok (← conclude r)

def generate [Limits] (o : Options) (d : Definitions) (c : Configuration) :
    Logged (Except Failure Report) :=
  resume o d c { project := c.project }

def unreadable (vs : List Violation) (t : Timer) : Report :=
  withStep { generationErrors := vs.map Violation.line } "Parse Models" t false
    (toString vs.length ++ " error(s)")

def readable (d : Definitions) (c : Configuration) (t : Timer) : Report :=
  withStep { project := c.project } "Parse Models" t true
    (toString d.models.length ++ " models parsed")

/-- A run that starts by reading the definitions and the settings.  Definitions that break the
structural rules end it with a report; any other failure to read them stops it. -/
def generateFrom [Limits] (o : Options)
    (reading : Logged (Except Failure (Definitions × Configuration))) :
    Logged (Except Failure Report) := do
  let t := Timer.instant "parse_models"
  let outcome ← reading
  t.log
  match outcome with
  | .ok (d, c) => resume o d c (readable d c t)
  | .error (.invalidDefinitions vs) =>
    Logged.write .error .generator (batchText (vs.map Violation.line))
    return .ok (← conclude (unreadable vs t))
  | .error failure => return .error failure

end Pipeline

end EntityGraph
