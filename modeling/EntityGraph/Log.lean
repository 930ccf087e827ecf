/-!
# Logged computations

A computation that writes log entries as it goes and, like any other, gives a value.

* `Entry`: one entry with its severity, its source and its message;
* `Logged`: a value with the entries written on the way to it, in order.
-/

namespace EntityGraph.Log

/-- The severity of an entry. -/
inductive Level where
  | debug
  | info
  | warning
  | error
deriving DecidableEq, Repr, Inhabited

def Level.label : Level → String
  | .debug => "DEBUG"
  | .info => "INFO"
  | .warning => "WARNING"
  | .error => "ERROR"

def Level.rank : Level → Nat
  | .debug => 10
  | .info => 20
  | .warning => 30
  | .error => 40

/-- The least severity that is shown for a degree of verbosity. -/
def Level.ofVerbosity (verbosity : Int) : Level :=
  if verbosity ≥ 2 then .debug else if verbosity ≥ 1 then .info else .warning

/-- The parts of the program that write entries. -/
inductive Source where
  | models
  | registry
  | schema
  | documents
  | resolvers
  | validators
  | generator
  | utilities
deriving DecidableEq, Repr, Inhabited

def Source.label : Source → String
  | .models => "graphgen.models"
  | .registry => "graphgen.registry"
  | .schema => "graphgen.schema"
  | .documents => "graphgen.documents"
  | .resolvers => "graphgen.resolvers"
  | .validators => "graphgen.validators"
  | .generator => "graphgen.generator"
  | .utilities => "graphgen.utils"

/-- One entry of a log. -/
structure Entry where
  level : Level
  source : Source
  message : String
deriving DecidableEq, Repr, Inhabited

end EntityGraph.Log

namespace EntityGraph

/-- A value with the log entries written on the way to it. -/
structure Logged (α : Type) where
  entries : List Log.Entry
  value : α

namespace Logged

/-- Entries are written in the order of the steps. -/
def bind {α β : Type} (x : Logged α) (f : α → Logged β) : Logged β :=
  ⟨x.entries ++ (f x.value).entries, (f x.value).value⟩

instance : Monad Logged where
  pure a := ⟨[], a⟩
  bind := Logged.bind

@[simp] theorem value_pure {α : Type} (a : α) : (pure a : Logged α).value = a := rfl

@[simp] theorem value_bind {α β : Type} (x : Logged α) (f : α → Logged β) :
    (x >>= f).value = (f x.value).value := rfl

def write (level : Log.Level) (source : Log.Source) (message : String) : Logged Unit :=
  ⟨[⟨level, source, message⟩], ()⟩

def writeAll (level : Log.Level) (source : Log.Source) (messages : List String) : Logged Unit :=
  ⟨messages.map fun m => ⟨level, source, m⟩, ()⟩

end Logged

end EntityGraph
