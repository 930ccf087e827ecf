import EntityGraph.Schema.Graph

/-!
# Schema definition language

A schema as text: its types in order with blank lines between them.  The scalars that every schema
has and the types of introspection are not written.

* `Schema`: the types of a schema with their definitions;
* `Schema.text`: the text of a schema.
-/

namespace EntityGraph

/-- A schema: its named types in order, each with its definition. -/
structure Schema where
  types : List (Schema.TypeKey × Schema.TypeDef)
deriving Inhabited

namespace Schema

def scalarDescription? (name : String) : Option String :=
  if name = "DateTime" then
    some ("Represents a time value as seconds since midnight, January 1, 1970 UTC. " ++
      "DateTime may either be expressed as a number of milliseconds or an " ++
      "ISO-8601 string. DateTime is serialized into JSON in the number of " ++
      "milliseconds since epoch.")
  else none

def descriptionText : Option String → String
  | none => ""
  | some d => "\"\"\"\n" ++ d ++ "\n\"\"\"\n"

/-- Lines between braces; without lines there are no braces. -/
def blockText (lines : List String) : String :=
  if lines.isEmpty then ""
  else " \x7b\n" ++ "\n".intercalate (lines.map ("  " ++ ·)) ++ "\n\x7d"

def argumentsText (arguments : List (String × TypeExpr)) : String :=
  if arguments.isEmpty then ""
  else "(" ++ ", ".intercalate (arguments.map fun a => a.1 ++ ": " ++ a.2.text) ++ ")"

def ObjectField.line (f : ObjectField) : String :=
  f.name ++ argumentsText f.arguments ++ ": " ++ f.type.text

def InputField.line (f : InputField) : String :=
  f.name ++ ": " ++ f.type.text ++
    (match f.default with
      | none => ""
      | some n => " = " ++ toString n)

def TypeDef.text (name : String) : TypeDef → String
  | scalar => descriptionText (scalarDescription? name) ++ "scalar " ++ name
  | object fields => "type " ++ name ++ blockText (fields.map ObjectField.line)
  | input fields => "input " ++ name ++ blockText (fields.map InputField.line)

/-- A type that is not written because every schema has it. -/
def isImplied (key : TypeKey) : Bool :=
  key.origin = .introspection || builtinScalars.contains key.name

def names (s : Schema) : List String := s.types.map (·.1.name)

/-- The roots are spelled out if a type has the name of the third root, which the schema lacks. -/
def rootsText (s : Schema) : List String :=
  if s.names.contains "Subscription" then
    ["schema" ++ blockText ["query: Query", "mutation: Mutation"]]
  else []

def text (s : Schema) : String :=
  "\n\n".intercalate (s.rootsText ++
    (s.types.filter fun t => !isImplied t.1).map fun t => t.2.text t.1.name)

end Schema

end EntityGraph
