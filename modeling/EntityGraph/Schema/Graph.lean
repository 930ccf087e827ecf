import EntityGraph.Schema.RootField

/-!
# Type graphs

The types that a schema consists of, in the order in which they are found: each registered object
type in turn, then the two roots, then the types of introspection, and after each type the types
that its fields refer to.  A registered object type waits for its own turn even if an earlier one
refers to it.

* `TypeDef`: the definition of a type;
* `Sources`: what a schema is built from, with `Sources.definition` for every type in it;
* `collect`: the types reachable from a type, in order;
* `Sources.types`: the types of the schema.
-/

namespace EntityGraph.Schema

/-- A field of an object type. -/
structure ObjectField where
  name : String
  type : TypeExpr
  arguments : List (String × TypeExpr)
deriving Inhabited

/-- A field of an input type, with its default if it has one. -/
structure InputField where
  name : String
  type : TypeExpr
  default : Option Int
deriving Inhabited

/-- The definition of a named type. -/
inductive TypeDef where
  | scalar
  | object (fields : List ObjectField)
  | input (fields : List InputField)
deriving Inhabited

/-- The named types that a definition refers to, field by field, the type of a field before those of
its arguments. -/
def TypeDef.references : TypeDef → List TypeKey
  | scalar => []
  | object fields => fields.flatMap fun f => f.type.key :: f.arguments.map (·.2.key)
  | input fields => fields.map (·.type.key)

def defaultSkip : Int := 0

def defaultTake : Int := 10

/-- The definition of an input type for sorting or paging. -/
def helperDef (name : String) : TypeDef :=
  if name = "Sort" then .input [⟨"column", scalarType "String", none⟩]
  else .input [⟨"skip", scalarType "Int", some defaultSkip⟩,
    ⟨"take", scalarType "Int", some defaultTake⟩]

/-- What a schema is built from. -/
structure Sources where
  registry : Registry
  query : RootFields
  mutation : RootFields

namespace Sources

def fieldsOf (s : Sources) : Root → RootFields
  | .query => s.query
  | .mutation => s.mutation

/-- The fields of the object type in a slot: those kept from an earlier schema, or those that the
registry gives now. -/
def slotFields (s : Sources) (slot : Nat) : Except Failure (Table TypeExpr) :=
  match s.registry.slots[slot]? with
  | none => .ok []
  | some entry =>
    match entry.fields with
    | some fields => .ok fields
    | none => do checkFieldNames (← modelFields s.registry entry.model)

def plainFields (fields : Table TypeExpr) : List ObjectField :=
  fields.map fun f => ⟨f.1, f.2, []⟩

/-- The definition of a named type. -/
def definition (s : Sources) (key : TypeKey) : Except Failure TypeDef :=
  match key.origin with
  | .scalar | .introspection => .ok .scalar
  | .entity slot => do return .object (plainFields (← s.slotFields slot))
  | .helper => .ok (helperDef key.name)
  | .root => do
    let root := if key.name = Root.query.typeName then Root.query else Root.mutation
    let fields ← checkFieldNames (s.fieldsOf root)
    return .object (fields.map fun f => ⟨f.1, f.2.fieldType, [("input", f.2.argumentType)]⟩)
  | .input root field =>
    match (s.fieldsOf root).get? field with
    | none => .ok (.input [])
    | some types => do
      let fields ← checkFieldNames types.input
      return .input (fields.map fun f => ⟨f.1, f.2, none⟩)
  | .result root field =>
    match (s.fieldsOf root).get? field with
    | none => .ok (.object [])
    | some types => .ok (.object (plainFields types.result))

/-- A bound on the number of types that can follow one another by reference. -/
def depth (s : Sources) : Nat :=
  s.registry.slots.length + 2 * (s.query.length + s.mutation.length) + 8

end Sources

/-- A collection that met a type whose definition fails, with the types defined before. -/
structure Halt where
  seen : List TypeKey
  failure : Failure

/-- The types seen so far followed by those newly reached from a type, each before the types that it
refers to.  A type that has been seen, or that waits for its own turn, is left alone. -/
def collect (define : TypeKey → Except Failure TypeDef) (waiting : List TypeKey) :
    Nat → List TypeKey → TypeKey → Except Halt (List TypeKey)
  | 0, seen, _ => .ok seen
  | fuel + 1, seen, key =>
    if waiting.contains key || seen.contains key then .ok seen
    else
      match define key with
      | .error failure => .error ⟨seen, failure⟩
      | .ok d => d.references.foldlM (collect define waiting fuel) (seen ++ [key])

/-- The types reached from each of several types in turn; those still to come wait. -/
def collectAll (define : TypeKey → Except Failure TypeDef) (fuel : Nat) :
    List TypeKey → List TypeKey → Except Halt (List TypeKey)
  | seen, [] => .ok seen
  | seen, key :: rest => do
    collectAll define fuel (← collect define rest fuel seen key) rest

namespace Sources

/-- The registered object types in the order of their names' first registration. -/
def objectKeys (s : Sources) : List TypeKey :=
  s.registry.objects.map fun o => ⟨.entity o.2, o.1⟩

/-- The types that every schema holds after those of its own: the scalars of the standard
directives, and the types of introspection. -/
def standardKeys : List TypeKey :=
  ["Boolean", "String"].map scalarKey ++ introspectionTypes.map fun name => ⟨.introspection, name⟩

/-- The types of the schema in order. -/
def types (s : Sources) : Except Halt (List TypeKey) := do
  let seen ← collectAll s.definition s.depth [] s.objectKeys
  (rootKey .query :: rootKey .mutation :: standardKeys).foldlM
    (collect s.definition [] s.depth) seen

end Sources

/-- The first name that two types share. -/
def firstRepeated : List String → List String → Option String
  | _, [] => none
  | seen, name :: rest =>
    if seen.contains name then some name else firstRepeated (name :: seen) rest

end EntityGraph.Schema
