import EntityGraph.Audit
import EntityGraph.Schema.Name
import EntityGraph.Schema.TypeExpr
import EntityGraph.Table

/-!
# Registries

What a compilation has registered so far: the scalars it may use, the object types of its entities,
and the entities themselves in order.  An object type has its number for good; a later type of the
same name takes its place under the name, while fields that already refer to the earlier one still
do.

* `Registry.find?`, `Registry.entityType`: a type by name;
* `Registry.resolve`: the type expression for a declared type;
* `Registry.addObject`, `Registry.addScalar`, `Registry.addModel`: registrations.
-/

namespace EntityGraph.Schema

def defaultScalars : List String := ["Int", "Float", "String", "Boolean", "ID", "DateTime"]

/-- A registered object type.  Its fields are worked out when a schema first needs them, and
kept. -/
structure Slot where
  model : Model
  fields : Option (Table TypeExpr) := none
deriving Inhabited

/-- The registrations of a compilation. -/
structure Registry where
  scalars : List String := defaultScalars
  slots : List Slot := []
  objects : Table Nat := []
  models : List Model := []
deriving Inhabited

/-- A list with an item at its end, unless it has the item already. -/
def addNew (xs : List String) (x : String) : List String := if xs.contains x then xs else xs ++ [x]

/-- A set of scalars given by name.  A name that is not a default scalar makes a new one. -/
def scalarSet (base : Bool) (names : List String) : Except Failure (List String) := do
  let start := if base then defaultScalars else []
  for name in names do
    if !defaultScalars.contains name then checkTypeName name
  return names.foldl addNew start

namespace Registry

/-- The object type under a name. -/
def objectKey? (r : Registry) (name : String) : Option TypeKey :=
  (r.objects.get? name).map fun slot => ⟨.entity slot, name⟩

/-- The type under a name; scalars come before object types. -/
def find? (r : Registry) (name : String) : Option TypeKey :=
  if r.scalars.contains name then some (scalarKey name) else r.objectKey? name

def has (r : Registry) (name : String) : Bool := (r.find? name).isSome

/-- The type under a name, which must exist. -/
def get (r : Registry) (name : String) : Except Failure TypeKey :=
  match r.find? name with
  | some key => .ok key
  | none => .error (.unknownType name)

/-- The object type of an entity, which must be registered. -/
def entityType (r : Registry) (name : String) : Except Failure TypeKey :=
  match r.objectKey? name with
  | some key => .ok key
  | none => .error (.modelNotFound name)

def resolve (r : Registry) (name : String) (isList required : Bool) : Except Failure TypeExpr :=
  (r.get name).map fun key => (TypeExpr.named key).wrap isList required

def addModel (r : Registry) (m : Model) : Registry := { r with models := r.models ++ [m] }

/-- A registry with one more object type; it takes the place of an earlier one of its name. -/
def insertObject (r : Registry) (m : Model) : Registry :=
  { r with slots := r.slots ++ [{ model := m }], objects := r.objects.put m.name r.slots.length }

def addScalar (r : Registry) (name : String) : Logged (Except Failure Registry) := do
  match checkTypeName name with
  | .error failure => return .error failure
  | .ok () =>
    Logged.write .debug .registry ("Registered scalar type '" ++ name ++ "'.")
    return .ok { r with scalars := addNew r.scalars name }

def addObject (r : Registry) (m : Model) : Logged (Except Failure Registry) := do
  match checkTypeName m.name with
  | .error failure => return .error failure
  | .ok () =>
    Logged.write .debug .registry ("Registered object type '" ++ m.name ++ "'.")
    return .ok (r.insertObject m)

def describe (r : Registry) : String :=
  "<TypeRegistry " ++ toString r.scalars.length ++ " scalars, " ++ toString r.objects.length ++
    " object types, " ++ toString r.models.length ++ " models>"

end Registry

end EntityGraph.Schema
