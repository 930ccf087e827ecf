import EntityGraph.Schema.Registry

/-!
# Shapes of types

The fields of an entity's object type, and the input and result types of an operation.  Every field
map is written in order and a later field of the same name replaces an earlier one.

* `modelFields`: the generated identifier, the properties, the relationships;
* `argumentFields`, `inputFields`: what an operation takes;
* `resultFields`: what it gives;
* `OperationTypes.make`: both types of an operation.
-/

namespace EntityGraph.Schema

/-- A declaration of a field: its name, the name of its type, and its wrappers. -/
structure Declaration where
  name : String
  type : String
  list : Bool
  required : Bool

namespace Declaration

def ofProperty (p : Property) : Declaration := ⟨p.name, p.type, p.list, p.required⟩

def ofRelationship (r : Relationship) : Declaration := ⟨r.name, r.type, r.list, r.required⟩

def ofArgument (a : Argument) : Declaration := ⟨a.name, a.type, a.list, a.required⟩

def resolve (r : Registry) (d : Declaration) : Except Failure (String × TypeExpr) :=
  (r.resolve d.type d.list d.required).map fun type => (d.name, type)

end Declaration

/-- The declared fields of an entity after the generated identifier. -/
def declarations (m : Model) : List Declaration :=
  ⟨"id", "ID", false, true⟩ ::
    (m.properties.map .ofProperty ++ m.relationships.map .ofRelationship)

def modelFields (r : Registry) (m : Model) : Except Failure (Table TypeExpr) := do
  return Table.putAll [] (← (declarations m).mapM (Declaration.resolve r))

def argumentFields (r : Registry) (arguments : List Argument) :
    Except Failure (Table TypeExpr) := do
  return Table.putAll [] (← (arguments.map Declaration.ofArgument).mapM (Declaration.resolve r))

/-- An identifier that may be null. -/
def optionalId : TypeExpr := scalarType "ID"

/-- An identifier that is not null. -/
def requiredId : TypeExpr := .nonNull (scalarType "ID")

/-- The identifier next to arguments, or the identifier alone, which then is not null. -/
def genericFields (arguments : Table TypeExpr) : Table TypeExpr :=
  if arguments.isEmpty then [("id", requiredId)]
  else Table.putAll [("id", optionalId)] arguments

/-- The fields of the input type of an operation of a kind. -/
def shapeInput (kind : Kind) (arguments : Table TypeExpr) : Table TypeExpr :=
  match kind with
  | .view | .remove => genericFields arguments
  | .list =>
    Table.putAll arguments [("sort", .named sortKey), ("paginate", .named paginateKey)]
  | .create => arguments
  | .update => Table.putAll [("id", requiredId)] arguments

/-- The input fields that show or remove one entity. -/
def genericInputFields (r : Registry) (o : Operation) : Except Failure (Table TypeExpr) :=
  (argumentFields r o.arguments).map genericFields

/-- The fields of an operation's input type. -/
def inputFields (r : Registry) (o : Operation) : Except Failure (Table TypeExpr) := do
  let kind ← o.kind?
  return shapeInput kind (← argumentFields r o.arguments)

/-- The fields of a result type: a page of entities with their total, or one entity. -/
def resultFields (paged : Bool) (entity : TypeKey) : Table TypeExpr :=
  if paged then
    [("entries", .nonNull (.list (.nonNull (.named entity)))),
      ("total", .nonNull (scalarType "Int"))]
  else [("entry", .named entity)]

/-- The input and result types of an operation. -/
structure OperationTypes where
  model : String
  kind : Kind
  field : String
  input : Table TypeExpr
  result : Table TypeExpr
deriving Inhabited

namespace OperationTypes

def inputKey (t : OperationTypes) : TypeKey :=
  ⟨.input t.kind.root t.field, Naming.inputType t.model t.kind⟩

def resultKey (t : OperationTypes) : TypeKey :=
  ⟨.result t.kind.root t.field, Naming.resultType t.model t.kind⟩

/-- The type of the root field that runs the operation. -/
def fieldType (t : OperationTypes) : TypeExpr := .nonNull (.named t.resultKey)

def argumentType (t : OperationTypes) : TypeExpr := .nonNull (.named t.inputKey)

/-- The types of an operation on a registered entity. -/
def make (r : Registry) (m : Model) (o : Operation) : Except Failure OperationTypes := do
  let kind ← o.kind?
  let entity ← r.entityType m.name
  let input ← inputFields r o
  return ⟨m.name, kind, Naming.rootField o.name m.name, input,
    resultFields (kind = .list) entity⟩

end OperationTypes

/-- A field map whose names are well-formed. -/
def checkFieldNames {α : Type} (fields : Table α) : Except Failure (Table α) := do
  for name in fields.keys do
    checkName name
  return fields

end EntityGraph.Schema
