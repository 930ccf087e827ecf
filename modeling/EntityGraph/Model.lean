import EntityGraph.Value

/-!
# Entity definitions

What a compilation starts from: entities with their properties, their relationships to other
entities, and the operations exposed for them.  Names of types, kinds and validators are texts as
the definitions give them; what they stand for is looked up where it is needed.

* `Model`: an entity;
* `Operation`, `Argument`, `Validator`: what can be done with it;
* `scalarLabels`, `permissionLabels`: the closed sets that some texts are taken from.
-/

namespace EntityGraph

/-- An advisory access rule for a role. -/
structure Permission where
  role : String
  effect : String
deriving Inhabited

/-- A constraint on an argument: its kind and a bag of parameters, the entries of a mapping whose
keys are texts. -/
structure Validator where
  kind : String
  bag : List (Value × Value)
deriving Inhabited

/-- An argument of an operation.  Its type is wrapped in a list if `list` holds, and is not null if
`required` holds. -/
structure Argument where
  name : String
  type : String
  list : Bool
  required : Bool
  validators : List Validator
deriving Inhabited

/-- A scalar field of an entity. -/
structure Property where
  name : String
  type : String
  list : Bool
  required : Bool
  unique : Bool
  permissions : List Permission
deriving Inhabited

/-- A reference from an entity to another entity, or to a scalar. -/
structure Relationship where
  name : String
  type : String
  list : Bool
  required : Bool
deriving Inhabited

/-- An operation exposed for an entity. -/
structure Operation where
  name : String
  kind : String
  arguments : List Argument
  permissions : List Permission
deriving Inhabited

/-- An entity. -/
structure Model where
  name : String
  properties : List Property
  relationships : List Relationship
  operations : List Operation
deriving Inhabited

/-- The scalar types that a property or an argument may have. -/
def scalarLabels : List String := ["Int", "Float", "String", "Boolean", "ID", "DateTime"]

/-- The effects of a permission. -/
def permissionLabels : List String := ["allow", "deny"]

namespace Model

def propertyNames (m : Model) : List String := m.properties.map (·.name)

/-- An entity for which at least one operation is exposed. -/
def hasOperations (m : Model) : Bool := !m.operations.isEmpty

/-- The names of an entity's declared fields: its properties, then its relationships. -/
def fieldNames (m : Model) : List String := m.propertyNames ++ m.relationships.map (·.name)

end Model

end EntityGraph
