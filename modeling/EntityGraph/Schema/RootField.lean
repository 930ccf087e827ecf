import EntityGraph.Schema.Shape

/-!
# Root fields

The fields of the `Query` and `Mutation` roots: one for every operation of a suitable kind, named
after the operation and its entity.  A repeated name keeps its place and gets the later operation.

* `RootFields.collectFrom`: the root fields of some operations, and the names written more than once,
  at each further write;
* `RootFields.collect`: the root fields of a registry's entities.
-/

namespace EntityGraph.Schema

/-- The root fields with the types of the operations that they run. -/
abbrev RootFields := Table OperationTypes

namespace RootFields

/-- The operations of entities, each with its entity, in order. -/
def operations (models : List Model) : List (Model × Operation) :=
  models.flatMap fun m => m.operations.map fun o => (m, o)

/-- The fields so far with those of more operations, and the names overwritten on the way, the last
one first.  An operation of an unknown kind, or one whose types cannot be built, ends the collection
after the names overwritten before. -/
def collectFrom (r : Registry) (wanted : Kind → Bool) (fields : RootFields)
    (overwritten : List String) :
    List (Model × Operation) → List String × Except Failure RootFields
  | [] => (overwritten, .ok fields)
  | (m, o) :: rest =>
    match o.kind? with
    | .error failure => (overwritten, .error failure)
    | .ok kind =>
      if !wanted kind then collectFrom r wanted fields overwritten rest
      else
        let name := Naming.rootField o.name m.name
        let overwritten := if fields.has name then name :: overwritten else overwritten
        match OperationTypes.make r m o with
        | .error failure => (overwritten, .error failure)
        | .ok types => collectFrom r wanted (fields.put name types) overwritten rest

/-- The root fields of the operations whose kind is wanted; each overwriting is logged. -/
def collect (r : Registry) (wanted : Kind → Bool) : Logged (Except Failure RootFields) := do
  let (overwritten, outcome) := collectFrom r wanted [] [] (operations r.models)
  Logged.writeAll .warning .schema
    (overwritten.reverse.map fun name =>
      "Root field '" ++ name ++ "' is defined more than once; the last definition wins.")
  return outcome

def ofRoot (r : Registry) (root : Root) : Logged (Except Failure RootFields) :=
  collect r fun kind => kind.root = root

end RootFields

end EntityGraph.Schema
