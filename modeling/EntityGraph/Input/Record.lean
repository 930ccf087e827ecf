import EntityGraph.Failure

/-!
# Records

A record is read from a mapping field by field: each declared field has a reading, fields that are
absent keep their defaults unless they are required, and a key that names no field is a violation of
its own.  No violation hides another: those of the fields come first, in the order of declaration,
then those of the keys, in the order of the mapping.  Only a mapping with a key that is no row of
characters is refused as a whole.

* `Field`: a declared field of a record type;
* `Record.read`: a record from a value;
* `Record.assign`, `Record.set`: a record with one field, or any attribute, assigned;
* `Record.dump`: a record as a mapping.
-/

namespace EntityGraph.Input

/-- A declared field: how it is read into a record, and how it is shown. -/
structure Field (α : Type) where
  name : String
  required : Bool
  reading : Value → Checked (α → α)
  shown : α → Value

/-- A field with a reading of its content, a way to store it and a way to show it. -/
def Field.of {α β : Type} (name : String) (required : Bool) (reading : Value → Checked β)
    (store : β → α → α) (shown : α → Value) : Field α :=
  ⟨name, required, fun v => (reading v).map store, shown⟩

/-- A record type: its title, its fields, a record with every default, and what is computed from the
fields after each change. -/
structure Record (α : Type) where
  title : String
  fields : List (Field α)
  blank : α
  settle : α → α := id
  computed : α → List (String × Value) := fun _ => []
  /-- What becomes of a value kept under a name that starts with an underscore. -/
  keep : String → Value → α → α := fun _ _ a => a

namespace Record

variable {α : Type}

def readField (f : Field α) (es : List (Value × Value)) : Checked (α → α) :=
  match Value.get? f.name es with
  | some v => Checked.under (.name f.name) (f.reading v)
  | none =>
    if f.required then Checked.under (.name f.name) (Checked.fail .missing) else .ok id

/-- The violation of a key that names no field. -/
def keyViolation? (fields : List (Field α)) (key : Value) : Option Violation :=
  match key with
  | .text s =>
    if fields.any fun f => f.name == s then none else some ⟨[.name s], .extra⟩
  | key => some ⟨[.ofKey key], .keyNotText⟩

def checkKeys (fields : List (Field α)) (es : List (Value × Value)) : Checked Unit :=
  match es.filterMap fun e => keyViolation? fields e.1 with
  | [] => .ok ()
  | vs => .error vs

/-- A record from the entries of a mapping.  A key with code points that are no characters makes the
whole mapping unreadable. -/
def readEntries (r : Record α) (es : List (Value × Value)) : Checked α :=
  if es.any (·.1 matches .illFormed _) then Checked.fail .textUndecodable
  else
    let changes := Checked.all (r.fields.map fun f => readField f es)
    (Checked.both changes (checkKeys r.fields es)).map fun p =>
      r.settle (p.1.foldl (fun a change => change a) r.blank)

def read (r : Record α) : Value → Checked α
  | .map es => r.readEntries es
  | _ => Checked.fail (.recordExpected r.title)

/-- A record with one field assigned.  A value that the field's reading refuses changes nothing. -/
def assign (r : Record α) (name : String) (v : Value) (a : α) : Checked α :=
  match r.fields.find? fun f => f.name == name with
  | some f => (Checked.under (.name name) (f.reading v)).map fun change => r.settle (change a)
  | none => .error [⟨[.name name], .noAttribute name⟩]

/-- What every record tells about itself. -/
def inherent : List String := ["model_extra", "model_fields_set"]

/-- An attribute that is worked out and not kept. -/
def isComputed (r : Record α) (name : String) (a : α) : Bool :=
  inherent.contains name || name == "__fields_set__" || (r.computed a).any fun c => c.1 == name

/-- The refusal of a value for one of the attributes that make a record what it is. -/
def refused? (title name : String) (v : Value) : Option Failure :=
  if name = "__class__" then
    some (.wrongKind ("__class__ must be set to a class, not '" ++ v.typeName ++ "' object"))
  else if name = "__dict__" && !(v matches .map _) then
    some (.wrongKind ("__dict__ must be set to a dictionary, not a '" ++ v.typeName ++ "'"))
  else if name = "__weakref__" then some (.innerAttribute name title)
  else none

/-- A mapping that is put in the place of all fields of a record at once. -/
def replacesAll (name : String) (v : Value) : Bool := name = "__dict__" && v matches .map _

/-- A record with an attribute assigned.  A computed attribute cannot be assigned, and one whose
name starts with an underscore is kept apart from the fields.  What a record is like whose fields are
all replaced at once, by a mapping that nothing checks, is left open: the record stays as it is. -/
def set (r : Record α) (name : String) (v : Value) (a : α) : Except Failure α :=
  if r.isComputed name a then .error (.computedAttribute name r.title)
  else if name.startsWith "_" then
    match refused? r.title name v with
    | some failure => .error failure
    | none => .ok (r.keep name v a)
  else (r.assign name v a).mapError .invalidRecord

def declared (r : Record α) (a : α) : List (String × Value) :=
  r.fields.map fun f => (f.name, f.shown a)

/-- A record as a mapping of its declared and its computed fields. -/
def dump (r : Record α) (a : α) : Value := Value.record (r.declared a ++ r.computed a)

/-- A record as a mapping of its declared fields only. -/
def dumpDeclared (r : Record α) (a : α) : Value := Value.record (r.declared a)

end Record

end EntityGraph.Input
