import EntityGraph.Value.Literal

/-!
# Findings

What an audit of definitions reports: findings of three severities, and their layout as a report.

* `Finding.text`: a finding on one line;
* `Findings.errors`, `Findings.warnings`: the findings of one severity;
* `Findings.report`: all findings with their contexts.
-/

namespace EntityGraph.Audit

/-- How grave a finding is. -/
inductive Severity where
  | error
  | warning
  | info
deriving DecidableEq, Repr, Inhabited

def Severity.label : Severity → String
  | .error => "error"
  | .warning => "warning"
  | .info => "info"

/-- The name of a severity in capitals. -/
def Severity.heading : Severity → String
  | .error => "ERROR"
  | .warning => "WARNING"
  | .info => "INFO"

/-- A finding: its severity, its code, a sentence, and the names involved. -/
structure Finding where
  severity : Severity
  code : String
  message : String
  context : List (String × Value)
deriving Inhabited

def Finding.text (f : Finding) : String :=
  "[" ++ f.severity.heading ++ "] " ++ f.code ++ ": " ++ f.message

/-- The findings of an audit in the order in which they were made. -/
abbrev Findings := List Finding

namespace Findings

/-- The findings that make definitions invalid. -/
def errors (fs : Findings) : Findings := fs.filter fun f => f.severity = .error

/-- The findings that only warn. -/
def warnings (fs : Findings) : Findings := fs.filter fun f => f.severity = .warning

def hasErrors (fs : Findings) : Bool := fs.any fun f => f.severity = .error

def hasWarnings (fs : Findings) : Bool := fs.any fun f => f.severity = .warning

def summary (fs : Findings) : String :=
  "Validation: " ++ toString (errors fs).length ++ " error(s), " ++
    toString (warnings fs).length ++ " warning(s), " ++ toString fs.length ++ " total item(s)."

def describe (fs : Findings) : String := "<ValidationResult " ++ summary fs ++ ">"

/-- The lines of one finding in a report: the severity padded to seven columns, the code and the
sentence, then the context entry by entry. -/
def reportLines (f : Finding) : List String :=
  let heading := f.severity.heading
  let padding := String.ofList (List.replicate (7 - heading.length) ' ')
  ("  " ++ heading ++ padding ++ " [" ++ f.code ++ "] " ++ f.message) ::
    f.context.map fun c => "          " ++ c.1 ++ ": " ++ c.2.plain

/-- The report of a set of findings; those that only inform are shown on request. -/
def report (fs : Findings) (withInfo : Bool) : String :=
  let shown := fs.filter fun f => withInfo || f.severity ≠ .info
  "\n".intercalate (summary fs :: "" :: shown.flatMap reportLines)

end Findings

end EntityGraph.Audit
