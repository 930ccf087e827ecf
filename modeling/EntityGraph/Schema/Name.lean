import EntityGraph.Failure

/-!
# Names of a schema

A name is a letter or an underscore, then letters, digits and underscores, all ASCII.  The scalars
and the types of introspection that every schema has are reserved.

* `checkName`: a well-formed name, or what is wrong with it;
* `checkTypeName`: a well-formed name for a new type.
-/

namespace EntityGraph.Schema

def isNameStart (c : Char) : Bool := c.isAlpha || c = '_'

def isNamePart (c : Char) : Bool := c.isAlphanum || c = '_'

/-- What is wrong with a name: nothing in it, a character that no name has, or a digit at its
start. -/
def checkName (name : String) : Except Failure Unit :=
  match name.toList with
  | [] => .error .emptyName
  | c :: cs =>
    if !cs.all isNamePart then .error (.nameCharacters name)
    else if !isNameStart c then .error (.nameStart name)
    else .ok ()

/-- The scalars that every schema has. -/
def builtinScalars : List String := ["Int", "Float", "String", "Boolean", "ID"]

/-- The types that describe a schema to its clients, in the order in which a schema lists them. -/
def introspectionTypes : List String :=
  ["__Schema", "__Type", "__TypeKind", "__Field", "__InputValue", "__EnumValue", "__Directive",
    "__DirectiveLocation"]

/-- The names that no new type may have. -/
def isReservedType (name : String) : Bool :=
  builtinScalars.contains name || introspectionTypes.contains name

/-- A name for a new type: not reserved, and well-formed. -/
def checkTypeName (name : String) : Except Failure Unit :=
  if isReservedType name then .error (.reservedType name) else checkName name

end EntityGraph.Schema
