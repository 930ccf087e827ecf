import EntityGraph.Schema.Printer

/-!
# Building schemas

A schema is built from a registry once every entity is known: the fields of all entities are
resolved, the root fields are collected, and the types are brought together under distinct names.
Whether or not that succeeds, the registry keeps the fields of every object type that was reached.

* `Schema.addModel`: an entity registered with its object type;
* `Schema.build`: the schema of a registry, and the registry afterwards.
-/

namespace EntityGraph.Schema

/-- The first property of an entity whose type is unknown is refused. -/
def checkProperties (r : Registry) (m : Model) : Except Failure Unit := do
  for p in m.properties do
    let _ ← r.resolve p.type p.list p.required

/-- The checks that an entity passes before it is registered: the types of its properties, then its
name. -/
def checkModel (r : Registry) (m : Model) : Except Failure Unit := do
  checkProperties r m
  checkTypeName m.name

/-- A registry with an entity and its object type.  The targets of relationships are not looked at:
they may be registered later. -/
def addModel (r : Registry) (m : Model) : Logged (Except Failure Registry) := do
  match checkModel r m with
  | .error failure => return .error failure
  | .ok () =>
    Logged.write .debug .registry ("Registered object type '" ++ m.name ++ "'.")
    Logged.write .debug .schema
      ("Added model '" ++ m.name ++ "' (" ++ toString m.properties.length ++ " properties, " ++
        toString m.relationships.length ++ " relationships, " ++ toString m.operations.length ++
        " operations).")
    return .ok ((r.addModel m).insertObject m)

/-- The fields of every entity can be resolved, or the first failure in the order of the
entities. -/
def checkReferences (r : Registry) : Except Failure Unit := do
  for m in r.models do
    let _ ← modelFields r m

/-- The object type in a slot with its fields kept, if the slot is among those reached. -/
def Sources.keepSlot (s : Sources) (reached : List TypeKey) (slot : Nat) (entry : Slot) : Slot :=
  if reached.any fun key => key.origin = .entity slot then
    match s.slotFields slot with
    | .ok fields => { entry with fields := some fields }
    | .error _ => entry
  else entry

/-- A registry that keeps the fields of the object types reached. -/
def Sources.keep (s : Sources) (reached : List TypeKey) : Registry :=
  { s.registry with slots := s.registry.slots.mapIdx (s.keepSlot reached) }

/-- The types in order with their definitions, under distinct names. -/
def Sources.schemaOf (s : Sources) (keys : List TypeKey) : Except Failure Schema := do
  if let some name := firstRepeated [] (keys.map (·.name)) then
    .error (.duplicateType name)
  let types ← keys.mapM fun key => do return (key, ← s.definition key)
  return ⟨types⟩

/-- The schema of the sources, and the registry with the fields kept. -/
def Sources.build (s : Sources) : Registry × Except Failure Schema :=
  match s.types with
  | .error halt => (s.keep halt.seen, .error halt.failure)
  | .ok keys => (s.keep keys, s.schemaOf keys)

/-- The sources of a registry's schema: its references checked, its root fields collected. -/
def sources (r : Registry) : Logged (Except Failure Sources) := do
  match checkReferences r with
  | .error failure => return .error failure
  | .ok () =>
    match ← RootFields.ofRoot r .query with
    | .error failure => return .error failure
    | .ok query =>
      match ← RootFields.ofRoot r .mutation with
      | .error failure => return .error failure
      | .ok mutation => return .ok ⟨r, query, mutation⟩

/-- The schema of a registry, and the registry with the fields kept. -/
def build (r : Registry) : Logged (Registry × Except Failure Schema) := do
  match ← sources r with
  | .error failure => return (r, .error failure)
  | .ok s =>
    let (kept, outcome) := s.build
    if let .ok _ := outcome then
      Logged.write .info .schema
        ("Schema created: " ++ toString r.objects.length ++ " object types, " ++
          toString s.query.length ++ " query fields, " ++ toString s.mutation.length ++
          " mutation fields.")
    return (kept, outcome)

end EntityGraph.Schema
