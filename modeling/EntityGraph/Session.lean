import EntityGraph.Document
import EntityGraph.Handlers
import EntityGraph.Schema

/-!
# Compilation sessions

One compilation: entities are added one at a time, then the session is finalized and gives all its
outputs at once.  An entity that is refused leaves no trace, and a finalized session takes no more.

* `Session.add`, `Session.addAll`: entities added;
* `Session.finalize`: the outputs, the same ones however often it is called;
* `compile`: a whole session over a list of entities.
-/

namespace EntityGraph

/-- All that a finalized session produced. -/
structure Output where
  schema : Schema
  document : Document
  source : String

def Output.schemaText (o : Output) : String := o.schema.text

def Output.documentText (o : Output) : String := o.document.text

/-- One compilation in progress, or finalized with its output. -/
structure Session where
  config : Configuration
  registry : Schema.Registry
  module : Handlers.Module := {}
  output : Option Output := none

namespace Session

/-- A new session; without a set of scalars it uses the default ones. -/
def start (config : Configuration) (scalars : Option (List String)) : Session :=
  { config, registry := { scalars := scalars.getD Schema.defaultScalars } }

def isFinalized (s : Session) : Bool := s.output.isSome

def models (s : Session) : List Model := s.registry.models

section

variable [Limits]

/-- A session with one more entity.  Its handlers are rendered before it is registered and committed
after, so an entity that either step refuses changes nothing. -/
def add (s : Session) (m : Model) : Logged (Except Failure Session) := do
  if s.isFinalized then return .error (.sessionFinalized m.name)
  match Handlers.render s.config m with
  | .error failure => return .error failure
  | .ok piece =>
    match ← Schema.addModel s.registry m with
    | .error failure => return .error failure
    | .ok registry => return .ok { s with registry, module := ← s.module.push piece }

/-- A session with several more entities, up to the first that is refused. -/
def addAll (s : Session) : List Model → Logged (Session × Except Failure Unit)
  | [] => return (s, .ok ())
  | m :: ms => do
    match ← s.add m with
    | .error failure => return (s, .error failure)
    | .ok next => next.addAll ms

/-- The output of a session from its schema. -/
def outputOf (s : Session) (schema : Schema) : Logged (Except Failure (Handlers.Module × Output)) :=
  do
    match ← Document.build s.models with
    | .error failure => return .error failure
    | .ok document =>
      match ← s.module.create s.config with
      | .error failure => return .error failure
      | .ok module => return .ok (module, ⟨schema, document, module.output⟩)

/-- The session finalized, with its output.  A session that cannot be finalized stays open. -/
def finalize (s : Session) : Logged (Session × Except Failure Output) := do
  if let some output := s.output then return (s, .ok output)
  let (registry, built) ← Schema.build s.registry
  let s := { s with registry }
  match built with
  | .error failure => return (s, .error failure)
  | .ok schema =>
    match ← s.outputOf schema with
    | .error failure => return (s, .error failure)
    | .ok (module, output) =>
      Logged.write .info .generator
        ("Session finalized with " ++ toString s.models.length ++ " model(s).")
      return ({ s with module, output := some output }, .ok output)

end

def describe (s : Session) : String :=
  "<CompilationSession " ++ (if s.isFinalized then "finalized" else "open") ++ ", " ++
    toString s.models.length ++ " models>"

end Session

def compile [Limits] (config : Configuration) (scalars : Option (List String)) (models : List Model) :
    Logged (Except Failure Output) := do
  let (s, added) ← (Session.start config scalars).addAll models
  match added with
  | .error failure => return .error failure
  | .ok () => return (← s.finalize).2

end EntityGraph
