import EntityGraph.Kind
import EntityGraph.Naming.Case
import EntityGraph.Text.Class
import EntityGraph.Text.Uppercase

/-!
# Derived names

Every name that the compiler emits is derived here from the names of a model and an operation and
from the kind of the operation, so that the schema, the document and the handler module cannot
disagree about one.

* `operationType`, `inputType`, `resultType`: the types of an operation;
* `rootField`, `fragment`, `block`: the names in a document;
* `resolverClass`, `serviceClass`, `serviceAttribute`, `resolverMethod`: the names in the module.
-/

namespace EntityGraph.Naming

/-- A capital letter at the start and neither an underscore nor a hyphen. -/
def isPascalCase (name : String) : Bool :=
  match name.toList with
  | [] => false
  | c :: cs => Text.isUppercase c && !(c :: cs).contains '_' && !(c :: cs).contains '-'

/-- The stem of the input and result types of an operation. -/
def operationType (model : String) (kind : Kind) : String := model ++ kind.label

def inputType (model : String) (kind : Kind) : String := operationType model kind ++ "Input"

def resultType (model : String) (kind : Kind) : String := operationType model kind ++ "Result"

/-- The root field of an operation: its name followed by the model's. -/
def rootField (operation model : String) : String := operation ++ model

def fragment (model : String) : String := model ++ "Fragment"

def block (model : String) (kind : Kind) : String := kind.label ++ model

def resolverClass (model : String) : String := pascalCase (model ++ "Resolver")

def serviceClass (model : String) : String := pascalCase (model ++ "Service")

/-- The attribute that holds the service, and the module that defines it. -/
def serviceAttribute (model : String) : String := snakeCase (serviceClass model)

def resolverMethod (kind : Kind) (operation : String) : String :=
  snakeCase (kind.label ++ "_" ++ operation)

/-- Lines moved right by `level` steps of `size` columns.  A blank line stays as it is, and a
negative amount moves nothing. -/
def indentBy (level size : Int) (lines : List String) : List String :=
  let margin := String.ofList (List.replicate (level * size).toNat ' ')
  lines.map fun line => if Text.isBlankLine line then line else margin ++ line

/-- Lines moved right by `level` steps of two columns. -/
def indent (level : Nat) (lines : List String) : List String := indentBy level 2 lines

end EntityGraph.Naming
