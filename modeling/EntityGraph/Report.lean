import EntityGraph.Manifest
import EntityGraph.Number.Decimal
import EntityGraph.Session

/-!
# Reports

What a run of the pipeline did: its steps with their outcomes, every error and warning, and the
manifest of what it produced.

* `Timer`: a labelled span of time, with `Timer.between` for two readings of a clock;
* `Report`: the record of a run;
* `Report.artifacts`: the artifacts by name, the last one of a name winning;
* `Report.summary`: the report as text.
-/

namespace EntityGraph

/-- A labelled span of time in seconds. -/
structure Timer where
  label : String := "operation"
  elapsed : Binary64 := Binary64.zero false
deriving Inhabited

namespace Timer

/-- The timer that was started and stopped at two readings of a clock. -/
def between (label : String) (start stop : Binary64) : Timer := ⟨label, stop.sub start⟩

/-- The timer of a step that is a pure computation: it stops at the reading at which it started. -/
def instant (label : String) : Timer := ⟨label, Binary64.zero false⟩

def describe (t : Timer) : String := "<Timer " ++ t.label ++ ": " ++ t.elapsed.fixed 4 ++ "s>"

def log (t : Timer) : Logged Unit :=
  Logged.write .info .utilities
    ("Timer [" ++ t.label ++ "]: " ++ t.elapsed.fixed 4 ++ " seconds")

end Timer

/-- One step of a run. -/
structure StepMetric where
  name : String := ""
  success : Bool := true
  elapsed : Binary64 := Binary64.zero false
  detail : String := ""
deriving Inhabited

/-- The record of a run. -/
structure Report where
  success : Bool := false
  project : String := ""
  processed : Int := 0
  elapsed : Binary64 := Binary64.zero false
  steps : List StepMetric := []
  validationErrors : List String := []
  validationWarnings : List String := []
  generationErrors : List String := []
  manifest : Manifest := {}
  output : Option Output := none

namespace Report

def artifacts (r : Report) : Table String :=
  Table.putAll [] (r.manifest.artifacts.map fun a => (a.name, a.content))

def rule (c : Char) : String := String.ofList (List.replicate 60 c)

/-- A text filled up to a width on its right. -/
def padRight (width : Nat) (s : String) : String :=
  s ++ String.ofList (List.replicate (width - s.length) ' ')

/-- A text filled up to a width on its left. -/
def padLeft (width : Nat) (s : String) : String :=
  String.ofList (List.replicate (width - s.length) ' ') ++ s

def mark (success : Bool) : String := if success then "✓" else "✗"

def stepLine (s : StepMetric) : String :=
  "    " ++ mark s.success ++ " " ++ padRight 28 s.name ++ " " ++ padLeft 7 (s.elapsed.fixed 3) ++
    "s  " ++ s.detail

def stepLines (r : Report) : List String :=
  if r.steps.isEmpty then [] else "  Pipeline Steps:" :: r.steps.map stepLine

/-- A section of the summary, if there is anything in it. -/
def sectionLines (title sign : String) (items : List String) : List String :=
  if items.isEmpty then []
  else rule '-' :: ("  " ++ title ++ " (" ++ toString items.length ++ "):") ::
    items.map fun item => "    " ++ sign ++ " " ++ item

def figures (r : Report) : List (String × String) := [
  ("Status:", if r.success then "SUCCESS" else "FAILED"),
  ("Project:", r.project),
  ("Models processed:", toString r.processed),
  ("Artifacts:", toString r.manifest.artifacts.length),
  ("Total lines:", groupedInt r.manifest.totalLines),
  ("Total time:", r.elapsed.fixed 3 ++ "s")]

def summary (r : Report) : String :=
  "\n".intercalate
    ([rule '=', "  GraphGen - Generation Report", rule '='] ++
      (figures r).map (fun f => "  " ++ padRight 18 f.1 ++ f.2) ++ [rule '-'] ++ r.stepLines ++
      sectionLines "Validation Errors" (mark false) r.validationErrors ++
      sectionLines "Validation Warnings" "⚠" r.validationWarnings ++
      sectionLines "Generation Errors" (mark false) r.generationErrors ++ [rule '='])

end Report

end EntityGraph
