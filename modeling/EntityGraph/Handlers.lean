import EntityGraph.Configuration
import EntityGraph.Handlers.Formatted
import EntityGraph.Log

/-!
# The handler module

The module that serves a schema: its imports, each once, and the handlers of every entity in order.

* `Handlers.Module`: the contributions so far and the text made of them last;
* `Handlers.Module.add`: one more entity;
* `Handlers.Module.source`: the text of a module;
* `Handlers.Module.create`: the text, kept and logged.
-/

namespace EntityGraph.Handlers

/-- The path that every module imports from. -/
def libraryPath : String := "ariadne"

def libraryNames : List String := ["MutationType", "QueryType"]

def libraryLine : String :=
  "from " ++ libraryPath ++ " import " ++ ", ".intercalate libraryNames

/-- The imports of a module in progress without those whose line is there already. -/
def distinctImports (imports : List Import) : List Import :=
  imports.foldl (fun seen i => if seen.any fun j => j.line == i.line then seen else seen ++ [i]) []

/-- A module in progress. -/
structure Module where
  pieces : List Piece := []
  output : String := ""
deriving Inhabited

section

variable [Limits]

def render (c : Configuration) (m : Model) : Except Failure Piece :=
  Piece.ofModel c.servicePackage c.validatorModule m

namespace Module

def imports (m : Module) : List Import := m.pieces.flatMap (·.imports)

def bodies (m : Module) : List String := m.pieces.map Piece.body

def push (m : Module) (p : Piece) : Logged Module := do
  Logged.write .debug .resolvers
    ("Resolver source added for '" ++ p.model ++ "' (" ++ toString p.statements.length ++
      " validator call(s)).")
  return { m with pieces := m.pieces ++ [p] }

def add (c : Configuration) (m : Module) (entity : Model) : Logged (Except Failure Module) :=
  match render c entity with
  | .error failure => return .error failure
  | .ok piece => do return .ok (← m.push piece)

/-- The text of a module with every part on one line. -/
def plainSource (m : Module) : String :=
  let heads := libraryLine :: "" :: (distinctImports m.imports).map Import.line
  "\n".intercalate heads ++ "\n\n\n" ++ "\n\n\n".intercalate m.bodies ++ "\n"

/-- The text of a module within a line limit; its parts must be well-formed, and their statements
not nested too deep. -/
def wrappedSource (limit : Nat) (m : Module) : Except Failure String :=
  if !m.pieces.all Piece.isWellFormed then .error .malformedSource
  else if !m.pieces.all Piece.isShallow then .error .nestedTooDeep
  else
    .ok ("\n".intercalate
      (wrappedLines limit libraryPath libraryNames (distinctImports m.imports) m.pieces) ++ "\n")

def source (c : Configuration) (m : Module) : Except Failure String :=
  if c.formatSource then m.wrappedSource c.lineLength.toNat else .ok m.plainSource

/-- A module with its text, which is logged with the numbers of classes and lines of imports. -/
def create (c : Configuration) (m : Module) : Logged (Except Failure Module) := do
  match m.source c with
  | .error failure => return .error failure
  | .ok text =>
    Logged.write .info .resolvers
      ("Resolver source created: " ++ toString m.pieces.length ++ " class(es), " ++
        toString ((distinctImports m.imports).length + 2) ++ " import line(s).")
    return .ok { m with output := text }

end Module

end

end EntityGraph.Handlers
