import EntityGraph.Audit.Finding
import EntityGraph.Kind

/-!
# Concerns

What can be wrong with definitions that have the right structure: names that collide, targets that
do not exist, and shapes that the schema or the document cannot express.

* `Concern`: the causes;
* `Concern.finding`: how a concern is reported.
-/

namespace EntityGraph.Audit

/-- A cause for a finding. -/
inductive Concern where
  | duplicateModelName (model : String)
  | modelNameIsScalar (model : String)
  | modelNameReserved (model : String)
  | modelNameNotPascalCase (model : String)
  | fieldShadowsId (model : String)
  | duplicateFieldName (model field : String)
  | relationshipTargetMissing (model relationship target : String)
  | duplicateOperationKind (model : String) (kind : Kind)
  | modelWithoutOperations (model : String)
  | emptyFragment (model : String)
  | duplicateRootField (root : Root) (field : String) (models : List String)
deriving DecidableEq, Repr

namespace Concern

/-- How grave a concern is.  Definitions cannot be compiled in full if names collide or a target is
missing; where the last of several definitions wins, the concern is a warning. -/
def severity : Concern → Severity
  | duplicateModelName _ | modelNameIsScalar _ | modelNameReserved _ | duplicateFieldName ..
  | relationshipTargetMissing .. => .error
  | modelNameNotPascalCase _ | fieldShadowsId _ | duplicateOperationKind .. | emptyFragment _
  | duplicateRootField .. => .warning
  | modelWithoutOperations _ => .info

def code : Concern → String
  | duplicateModelName _ => "DUPLICATE_MODEL_NAME"
  | modelNameIsScalar _ => "MODEL_NAME_IS_SCALAR"
  | modelNameReserved _ => "MODEL_NAME_RESERVED"
  | modelNameNotPascalCase _ => "MODEL_NAME_NOT_PASCAL_CASE"
  | fieldShadowsId _ => "FIELD_SHADOWS_ID"
  | duplicateFieldName .. => "DUPLICATE_FIELD_NAME"
  | relationshipTargetMissing .. => "RELATIONSHIP_TARGET_MISSING"
  | duplicateOperationKind .. => "DUPLICATE_OPERATION_KIND"
  | modelWithoutOperations _ => "MODEL_WITHOUT_OPERATIONS"
  | emptyFragment _ => "EMPTY_FRAGMENT"
  | duplicateRootField .. => "DUPLICATE_ROOT_FIELD"

def named (s : String) : String := "'" ++ s ++ "'"

def message : Concern → String
  | duplicateModelName m => "Model name " ++ named m ++ " is defined more than once."
  | modelNameIsScalar m => "Model name " ++ named m ++ " collides with a scalar type."
  | modelNameReserved m => "Model name " ++ named m ++ " is reserved by the compiler."
  | modelNameNotPascalCase m =>
    "Model name " ++ named m ++ " is not PascalCase. Generated type names may look odd."
  | fieldShadowsId m =>
    "Model " ++ named m ++ " declares a field named 'id', which replaces the generated id field."
  | duplicateFieldName m f =>
    "Field " ++ named f ++ " is declared more than once on model " ++ named m ++ "."
  | relationshipTargetMissing m r t =>
    "Relationship " ++ named r ++ " on model " ++ named m ++ " targets unknown type " ++ named t ++
      "."
  | duplicateOperationKind m k =>
    "Model " ++ named m ++ " declares more than one " ++ k.label ++
      " operation; their input and result type names collide."
  | modelWithoutOperations m =>
    "Model " ++ named m ++ " has no operations and is left out of the example document."
  | emptyFragment m =>
    "Model " ++ named m ++ " has operations but no properties; its document fragment has an " ++
      "empty selection set."
  | duplicateRootField root f ms =>
    "Root field " ++ named (root.typeName ++ "." ++ f) ++ " is produced " ++ toString ms.length ++
      " times; the last definition wins."

def context : Concern → List (String × Value)
  | duplicateModelName m | modelNameIsScalar m | modelNameReserved m | modelNameNotPascalCase m
  | modelWithoutOperations m | emptyFragment m => [("model", .text m)]
  | fieldShadowsId m => [("model", .text m), ("field", .text "id")]
  | duplicateFieldName m f => [("model", .text m), ("field", .text f)]
  | relationshipTargetMissing m r t =>
    [("model", .text m), ("relationship", .text r), ("target", .text t)]
  | duplicateOperationKind m k => [("model", .text m), ("kind", .text k.label)]
  | duplicateRootField root f ms =>
    [("root", .text root.typeName), ("field", .text f), ("models", .texts ms)]

def finding (c : Concern) : Finding := ⟨c.severity, c.code, c.message, c.context⟩

end Concern

end EntityGraph.Audit
