import EntityGraph.Input.Coercion
import EntityGraph.Input.Record
import EntityGraph.Kind
import EntityGraph.Validator.Signature

/-!
# Definitions as records

The structural rules of entity definitions: for each type its declared fields, with the reading of
each, its defaults and its text.

* `permission`, `validator`, `argument`, `property`, `relationship`, `operation`, `model`: the
  records;
* `Definitions`: the entities of one run with an index by name;
* `Definitions.find?`: an entity by name;
* `Definitions.lookUp`: what stands under any key, as text.
-/

namespace EntityGraph.Input

def flag {α : Type} (name : String) (store : Bool → α → α) (shown : α → Bool) : Field α :=
  .of name false bool store fun a => .bool (shown a)

def nameField {α : Type} (store : String → α → α) (shown : α → String) : Field α :=
  .of "name" true identifier store fun a => .text (shown a)

/-- A required field that holds one of a closed set of labels. -/
def labelField {α : Type} (labels : List String) (store : String → α → α) (shown : α → String) :
    Field α :=
  .of "type" true (oneOf labels) store fun a => .text (shown a)

def listField {α β : Type} (name : String) (required : Bool) (item : Record β)
    (store : List β → α → α) (shown : α → List β) : Field α :=
  .of name required (listOf item.read) store fun a => .list ((shown a).map item.dump)

def permission : Record Permission where
  title := "Permission"
  blank := ⟨"", ""⟩
  fields := [
    .of "role" true nonEmptyText (fun x p => { p with role := x }) fun p => .text p.role,
    labelField permissionLabels (fun x p => { p with effect := x }) (·.effect)]

def validatorKind (v : Value) : Checked String := do
  let kind ← nonEmptyText v
  if isValidatorKind kind then .ok kind else Checked.fail (.unknownValidator kind)

def validator : Record Validator where
  title := "Validator"
  blank := ⟨"", []⟩
  fields := [
    .of "type" true validatorKind (fun x v => { v with kind := x }) fun v => .text v.kind,
    .of "properties" false bag (fun x v => { v with bag := x }) fun v => .map v.bag]

def argument : Record Argument where
  title := "Argument"
  blank := ⟨"", "", false, true, []⟩
  fields := [
    nameField (fun x a => { a with name := x }) (·.name),
    labelField scalarLabels (fun x a => { a with type := x }) (·.type),
    flag "list" (fun x a => { a with list := x }) (·.list),
    flag "required" (fun x a => { a with required := x }) (·.required),
    listField "validators" false validator (fun x a => { a with validators := x }) (·.validators)]

def property : Record Property where
  title := "Property"
  blank := ⟨"", "", false, true, false, []⟩
  fields := [
    nameField (fun x p => { p with name := x }) (·.name),
    labelField scalarLabels (fun x p => { p with type := x }) (·.type),
    flag "list" (fun x p => { p with list := x }) (·.list),
    flag "required" (fun x p => { p with required := x }) (·.required),
    flag "unique" (fun x p => { p with unique := x }) (·.unique),
    listField "permissions" false permission (fun x p => { p with permissions := x })
      (·.permissions)]

def relationship : Record Relationship where
  title := "Relationship"
  blank := ⟨"", "", false, true⟩
  fields := [
    nameField (fun x r => { r with name := x }) (·.name),
    .of "type" true nonEmptyText (fun x r => { r with type := x }) fun r => .text r.type,
    flag "list" (fun x r => { r with list := x }) (·.list),
    flag "required" (fun x r => { r with required := x }) (·.required)]

def operation : Record Operation where
  title := "Operation"
  blank := ⟨"", "", [], []⟩
  fields := [
    nameField (fun x o => { o with name := x }) (·.name),
    labelField (Kind.all.map Kind.label) (fun x o => { o with kind := x }) (·.kind),
    listField "arguments" false argument (fun x o => { o with arguments := x }) (·.arguments),
    listField "permissions" false permission (fun x o => { o with permissions := x })
      (·.permissions)]

def model : Record Model where
  title := "Model"
  blank := ⟨"", [], [], []⟩
  fields := [
    nameField (fun x m => { m with name := x }) (·.name),
    listField "properties" true property (fun x m => { m with properties := x }) (·.properties),
    listField "relationships" false relationship (fun x m => { m with relationships := x })
      (·.relationships),
    listField "operations" false operation (fun x m => { m with operations := x })
      (·.operations)]
  computed m := [
    ("property_names", .texts m.propertyNames), ("has_operations", .bool m.hasOperations)]

end EntityGraph.Input

namespace EntityGraph

/-- The entities of one run.  The index is built when the definitions are read and maps each name to
the last entity that has it; any value can be put in its place. -/
structure Definitions where
  models : List Model
  index : List (String × Model)
  replacement : Option Value := none

namespace Definitions

def ofModels (models : List Model) : Definitions :=
  { models, index := models.map fun m => (m.name, m) }

def names (d : Definitions) : List String := d.models.map (·.name)

/-- The last entity with a name, as the index has it. -/
def find? (d : Definitions) (name : String) : Option Model :=
  (d.index.reverse.find? fun e => e.1 == name).map (·.2)

def record : Input.Record Definitions where
  title := "ModelDefinitions"
  blank := { models := [], index := [] }
  fields := [
    Input.listField "models" false Input.model (fun x d => { d with models := x }) (·.models)]
  computed d := [("model_names", .texts d.names)]
  keep name v d := if name = "_model_map" then { d with replacement := some v } else d

def read (v : Value) : Checked Definitions := (record.read v).map fun d => ofModels d.models

end Definitions

/-! ## Texts of definitions -/

/-- A record as a call of its type with every field. -/
def fieldsText (title : String) (fields : List (String × String)) : String :=
  title ++ "(" ++ ", ".intercalate (fields.map fun f => f.1 ++ "=" ++ f.2) ++ ")"

def Permission.describe (p : Permission) : String :=
  fieldsText "Permission" [("role", Literal.quoted p.role), ("type", Literal.quoted p.effect)]

def Validator.describe (v : Validator) : String :=
  "<Validator " ++ v.kind ++ " " ++ (Value.map v.bag).literal ++ ">"

def Argument.describe (a : Argument) : String :=
  fieldsText "Argument" [("name", Literal.quoted a.name), ("type", Literal.quoted a.type),
    ("list", Literal.bool a.list), ("required", Literal.bool a.required),
    ("validators", "[" ++ ", ".intercalate (a.validators.map Validator.describe) ++ "]")]

def Property.describe (p : Property) : String := "<Property " ++ p.name ++ ": " ++ p.type ++ ">"

def Relationship.describe (r : Relationship) : String :=
  "<Relationship " ++ r.name ++ " → " ++ r.type ++ ">"

def Operation.describe (o : Operation) : String :=
  "<Operation " ++ o.name ++ " (" ++ o.kind ++ ")>"

def Model.describe (m : Model) : String :=
  "<Model " ++ m.name ++ " (" ++ toString m.properties.length ++ " props, " ++
    toString m.relationships.length ++ " rels, " ++ toString m.operations.length ++ " ops)>"

namespace Definitions

def describe (d : Definitions) : String :=
  "<ModelDefinitions " ++ toString d.models.length ++ " models>"

/-- The text of what the index holds under a key, none if it holds nothing there.  Only a text can
be the name of an entity, but any value that may be a key can be looked up. -/
def lookUp (d : Definitions) (key : Value) : Except Failure (Option String) :=
  match d.replacement with
  | none =>
    match key with
    | .text name => .ok ((d.find? name).map Model.describe)
    | _ => if key.isKey then .ok none else .error (.notAKey key.typeName)
  | some (.map es) =>
    if key.isKey then
      .ok (match Value.lookup? key es with
        | none | some .null => none
        | some v => some v.literal)
    else .error (.notAKey key.typeName)
  | some v => .error (.lacksAttribute v.typeName "get")

end Definitions

end EntityGraph
