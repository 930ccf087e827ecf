import EntityGraph.Audit
import EntityGraph.Naming
import EntityGraph.Validator.Signature

/-!
# Handler classes

The source of an entity's request handlers: the imports it needs, the statements that attach the
validators of its operations' arguments, and a class with one method per operation and a method that
binds them to the root fields.

* `Import`, `Method`, `Binding`, `HandlerClass`: the parts as data, with their lines as text;
* `Piece`: all that one entity contributes to the module;
* `Piece.ofModel`: the contribution of an entity.
-/

namespace EntityGraph.Handlers

/-- An import of one name from one module. -/
structure Import where
  path : String
  name : String
deriving DecidableEq, Repr, Inhabited

/-- A method that answers an operation by a method of the service. -/
structure Method where
  name : String
  holder : String
  service : String
deriving DecidableEq, Repr, Inhabited

/-- The binding of a method to a root field. -/
structure Binding where
  root : Root
  field : String
  method : String
deriving DecidableEq, Repr, Inhabited

/-- The handlers of an entity. -/
structure HandlerClass where
  name : String
  service : String
  holder : String
  methods : List Method
  bindings : List Binding
deriving DecidableEq, Repr, Inhabited

/-- What an entity contributes to the module. -/
structure Piece where
  model : String
  imports : List Import
  statements : List Statement
  handlers : HandlerClass
deriving Inhabited

/-- Indentation by a number of steps of four columns. -/
def margin (depth : Nat) : String := String.ofList (List.replicate (4 * depth) ' ')

def Import.line (i : Import) : String := "from " ++ i.path ++ " import " ++ i.name

def HandlerClass.initParameters (c : HandlerClass) : List String :=
  ["self", c.holder ++ ": " ++ c.service]

def methodParameters : List String := ["self", "obj", "info", "input"]

def bindParameters : List String := ["self", "query: QueryType", "mutation: MutationType"]

def headLine (opening : String) (parameters : List String) (closing : String) : String :=
  opening ++ ", ".intercalate parameters ++ closing

def Method.call (m : Method) : String := "await self." ++ m.holder ++ "." ++ m.service

def Method.lines (m : Method) : List String :=
  [margin 1 ++ headLine ("async def " ++ m.name ++ "(") methodParameters "):",
    margin 2 ++ "return " ++ m.call ++ "(input)"]

def Binding.quotedField (b : Binding) : String := "\"" ++ b.field ++ "\""

def Binding.line (b : Binding) : String :=
  b.root.keyword ++ ".set_field(" ++ b.quotedField ++ ", self." ++ b.method ++ ")"

namespace HandlerClass

def initLines (c : HandlerClass) : List String :=
  [margin 1 ++ headLine "def __init__(" c.initParameters ") -> None:",
    margin 2 ++ "self." ++ c.holder ++ " = " ++ c.holder]

def bindLines (c : HandlerClass) : List String :=
  (margin 1 ++ headLine "def bind(" bindParameters ") -> None:") ::
    if c.bindings.isEmpty then [margin 2 ++ "pass"]
    else c.bindings.map fun b => margin 2 ++ b.line

/-- The lines of a class, with blank lines between its methods. -/
def lines (c : HandlerClass) : List String :=
  ("class " ++ c.name ++ ":") :: c.initLines ++ (c.methods.flatMap fun m => "" :: m.lines) ++
    "" :: c.bindLines

def text (c : HandlerClass) : String := "\n".intercalate c.lines

end HandlerClass

namespace Piece

def handlersOf (m : Model) (o : Operation) : Except Failure (Method × Binding) := do
  let kind ← o.kind?
  let method := Naming.resolverMethod kind o.name
  return (⟨method, Naming.serviceAttribute m.name, kind.serviceMethod⟩,
    ⟨kind.root, Naming.rootField o.name m.name, method⟩)

def classOf (m : Model) : Except Failure HandlerClass := do
  let handlers ← m.operations.mapM (handlersOf m)
  return ⟨Naming.resolverClass m.name, Naming.serviceClass m.name, Naming.serviceAttribute m.name,
    handlers.map (·.1), handlers.map (·.2)⟩

/-- The validators of an operation, each with the name of its argument. -/
def validatorsOf (o : Operation) : List (String × Validator) :=
  o.arguments.flatMap fun a => a.validators.map fun v => (a.name, v)

section

variable [Limits]

/-- The statement that attaches a validator to a field of an input type. -/
def statement (target field : String) (v : Validator) : Except Failure Statement :=
  match v.statement? target field, v.flaw? with
  | some s, none => .ok s
  | some _, some flaw => .error flaw.failure
  | none, _ => .error (.unknownValidator v.kind)

def statementsOf (m : Model) (o : Operation) : Except Failure (List Statement) := do
  let kind ← o.kind?
  (validatorsOf o).mapM fun av => statement (Naming.inputType m.name kind) av.1 av.2

end

def serviceImport (package : String) (m : Model) : Import :=
  ⟨package ++ "." ++ Naming.serviceAttribute m.name, Naming.serviceClass m.name⟩

/-- The imports of an entity: its service, then every validator of its operations. -/
def importsOf (package validators : String) (m : Model) : List Import :=
  serviceImport package m ::
    (m.operations.flatMap validatorsOf).map fun av => ⟨validators, av.2.kind⟩

/-- The contribution of an entity to a module that imports services from one package and validators
from one module. -/
def ofModel [Limits] (package validators : String) (m : Model) : Except Failure Piece := do
  let statements ← m.operations.mapM (statementsOf m)
  let handlers ← classOf m
  return ⟨m.name, importsOf package validators m, statements.flatten, handlers⟩

/-- The body of a contribution: its statements, if it has any, and its class. -/
def body (p : Piece) : String :=
  if p.statements.isEmpty then p.handlers.text
  else "\n".intercalate (p.statements.map Statement.text) ++ "\n\n\n" ++ p.handlers.text

end Piece

end EntityGraph.Handlers
