import EntityGraph.Input.Definitions

/-!
# Configuration

The settings of a generation run.

* `Configuration`: the settings, with their defaults;
* `Configuration.record`: how they are read and shown.
-/

namespace EntityGraph

/-- The settings of a run. -/
structure Configuration where
  project : String := "graph"
  servicePackage : String := "services"
  validatorModule : String := "validation"
  formatSource : Bool := true
  lineLength : Int := 99
  strict : Bool := true
  failOnWarnings : Bool := false
deriving Inhabited

namespace Configuration

def record : Input.Record Configuration where
  title := "GenerationConfig"
  blank := {}
  fields := [
    .of "project_name" false (Input.shortText 128) (fun x c => { c with project := x })
      fun c => .text c.project,
    .of "service_package" false Input.nonEmptyText (fun x c => { c with servicePackage := x })
      fun c => .text c.servicePackage,
    .of "validator_module" false Input.nonEmptyText (fun x c => { c with validatorModule := x })
      fun c => .text c.validatorModule,
    Input.flag "format_source" (fun x c => { c with formatSource := x }) (·.formatSource),
    .of "line_length" false (Input.within 40 200) (fun x c => { c with lineLength := x })
      fun c => .int c.lineLength,
    Input.flag "strict_validation" (fun x c => { c with strict := x }) (·.strict),
    Input.flag "fail_on_warnings" (fun x c => { c with failOnWarnings := x }) (·.failOnWarnings)]

def describe (c : Configuration) : String :=
  fieldsText "GenerationConfig" ((record.declared c).map fun f => (f.1, f.2.literal))

end Configuration

end EntityGraph
