import EntityGraph.Audit.Concern
import EntityGraph.Failure
import EntityGraph.Log
import EntityGraph.Model
import EntityGraph.Naming

/-!
# Audits

The checks that look at definitions as a whole.  None of them changes what the compiler does: where
it lets the last of several definitions win, the audit only says so.

* `modelNames`, `fieldNames`, `relationships`, `operations`, `rootFields`: the checks;
* `rootWriters`: which entities write each root field;
* `full`: all checks in order, logged.
-/

namespace EntityGraph

def Kind.read (label : String) : Except Failure Kind :=
  match Kind.ofLabel? label with
  | some k => .ok k
  | none => .error (.unsupportedOperation label)

def Operation.kind? (o : Operation) : Except Failure Kind := Kind.read o.kind

namespace Audit

/-- The type names that the compiler takes for itself. -/
def reservedNames : List String := ["Query", "Mutation", "Sort", "Paginate"]

/-- The names that occur more than once, by first occurrence. -/
def repeated (names : List String) : List String :=
  (firstOccurrences names).filter fun n => names.count n > 1

/-- The collision of an entity's name with a scalar or with a type of the compiler. -/
def nameCollision (scalars : List String) (name : String) : List Concern :=
  if scalars.contains name then [.modelNameIsScalar name]
  else if reservedNames.contains name then [.modelNameReserved name]
  else []

/-- Entities have distinct names, which collide with no other type and start with a capital. -/
def modelNames (models : List Model) (scalars : List String) : List Concern :=
  (repeated (models.map (·.name))).map .duplicateModelName ++
  models.flatMap fun m =>
    nameCollision scalars m.name ++
      (if Naming.isPascalCase m.name then [] else [.modelNameNotPascalCase m.name])

/-- Properties and relationships share one field map with the generated identifier. -/
def fieldNames (models : List Model) : List Concern :=
  models.flatMap fun m =>
    (if m.fieldNames.contains "id" then [.fieldShadowsId m.name] else []) ++
      (repeated m.fieldNames).map (.duplicateFieldName m.name)

/-- Every relationship targets a scalar or an entity. -/
def relationships (models : List Model) (scalars : List String) : List Concern :=
  let known := scalars ++ models.map (·.name)
  models.flatMap fun m =>
    m.relationships.filterMap fun r =>
      if known.contains r.type then none
      else some (.relationshipTargetMissing m.name r.name r.type)

/-- The kinds that occur more than once, by first occurrence. -/
def repeatedKinds (kinds : List Kind) : List Kind :=
  kinds.eraseDups.filter fun k => kinds.count k > 1

/-- What an entity's operations mean for the schema and for the document. -/
def operationsOf (m : Model) : Except Failure (List Concern) := do
  let kinds ← m.operations.mapM Operation.kind?
  let collisions := (repeatedKinds kinds).map (.duplicateOperationKind m.name)
  let shape :=
    if m.operations.isEmpty then [.modelWithoutOperations m.name]
    else if m.properties.isEmpty then [.emptyFragment m.name]
    else []
  return collisions ++ shape

/-- Two operations of one kind on one entity collide, and a fragment needs a property. -/
def operations (models : List Model) : Except Failure (List Concern) := do
  return (← models.mapM operationsOf).flatten

/-- Each root field with the entities that write it, by first write. -/
abbrev Writers := List ((Root × String) × List String)

def Writers.add (key : Root × String) (model : String) : Writers → Writers
  | [] => [(key, [model])]
  | (k, ms) :: rest =>
    if k = key then (k, ms ++ [model]) :: rest else (k, ms) :: Writers.add key model rest

/-- The root fields that the operations of an entity write, in order. -/
def writesOf (m : Model) : Except Failure (List ((Root × String) × String)) :=
  m.operations.mapM fun o => do
    let kind ← o.kind?
    return ((kind.root, Naming.rootField o.name m.name), m.name)

/-- Which entities write each root field, in the order of writing. -/
def rootWriters (models : List Model) : Except Failure Writers := do
  let writes := (← models.mapM writesOf).flatten
  return writes.foldl (fun ws w => Writers.add w.1 w.2 ws) []

/-- A root field that is written more than once keeps its last definition only. -/
def rootFields (models : List Model) : Except Failure (List Concern) := do
  return (← rootWriters models).filterMap fun w =>
    if w.2.length > 1 then some (.duplicateRootField w.1.1 w.1.2 w.2) else none

def findings (cs : List Concern) : Findings := cs.map Concern.finding

/-! ## Logged checks -/

def checkModelNames (models : List Model) (scalars : List String) : Logged (List Concern) := do
  let cs := modelNames models scalars
  Logged.write .debug .validators
    ("validate_model_names: checked " ++ toString models.length ++ " models, " ++
      toString cs.length ++ " issue(s).")
  return cs

def announce (check : String) : Logged Unit :=
  Logged.write .debug .validators ("Running check: " ++ check)

def conclude (fs : Findings) : Logged Unit :=
  if fs.hasErrors then
    Logged.write .error .validators
      ("Validation FAILED with " ++ toString fs.errors.length ++ " error(s). " ++ fs.summary)
  else Logged.write .info .validators ("Validation PASSED. " ++ fs.summary)

def concerns (models : List Model) (scalars : List String) : Except Failure (List Concern) := do
  let ops ← operations models
  let roots ← rootFields models
  return modelNames models scalars ++ relationships models scalars ++ fieldNames models ++ ops ++
    roots

/-- All checks in order.  An operation of an unknown kind ends the audit at the first check that
looks at operations. -/
def full (models : List Model) (scalars : List String) : Logged (Except Failure Findings) := do
  Logged.write .info .validators
    ("Starting semantic validation: " ++ toString models.length ++ " model(s).")
  announce "validate_model_names"
  let _ ← checkModelNames models scalars
  announce "validate_relationships"
  announce "validate_field_names"
  announce "validate_operations"
  if let .error failure := operations models then
    return .error failure
  announce "validate_root_fields"
  match concerns models scalars with
  | .error failure => return .error failure
  | .ok cs =>
    let fs := findings cs
    conclude fs
    return .ok fs

end Audit

end EntityGraph
