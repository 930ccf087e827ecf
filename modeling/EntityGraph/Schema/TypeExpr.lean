import EntityGraph.Kind
import EntityGraph.Value

/-!
# Type expressions

The types of fields and arguments: named types, wrapped as lists and as not null.  Two named types
are the same type only if they have the same origin; types of one name and different origins may
exist side by side, and a schema refuses them.

* `TypeKey`: a named type;
* `TypeExpr`: a type expression, with its text and its named type;
* `TypeExpr.wrap`: a type with the wrappers that a declaration asks for.
-/

namespace EntityGraph.Schema

/-- Where a named type comes from. -/
inductive Origin where
  /-- A scalar. -/
  | scalar
  /-- The object type of an entity, by the number of its registration. -/
  | entity (slot : Nat)
  /-- The input types for sorting and for paging. -/
  | helper
  /-- The root of all reading or of all writing operations. -/
  | root
  /-- The input type of a root field. -/
  | input (root : Root) (field : String)
  /-- The result type of a root field. -/
  | result (root : Root) (field : String)
  /-- A type of introspection. -/
  | introspection
deriving DecidableEq, Repr, Inhabited

/-- A named type. -/
structure TypeKey where
  origin : Origin
  name : String
deriving DecidableEq, Repr, Inhabited

/-- A type expression. -/
inductive TypeExpr where
  | named (key : TypeKey)
  | list (item : TypeExpr)
  | nonNull (inner : TypeExpr)
deriving DecidableEq, Repr, Inhabited

namespace TypeExpr

def text : TypeExpr → String
  | named key => key.name
  | list item => "[" ++ item.text ++ "]"
  | nonNull inner => inner.text ++ "!"

/-- The named type inside a type expression. -/
def key : TypeExpr → TypeKey
  | named key => key
  | list item => item.key
  | nonNull inner => inner.key

/-- A type as a declaration asks for it: first the list, then not null, so that only the outermost
type is not null. -/
def wrap (base : TypeExpr) (isList required : Bool) : TypeExpr :=
  let inner := if isList then list base else base
  if required then nonNull inner else inner

end TypeExpr

def scalarKey (name : String) : TypeKey := ⟨.scalar, name⟩

def scalarType (name : String) : TypeExpr := .named (scalarKey name)

def sortKey : TypeKey := ⟨.helper, "Sort"⟩

def paginateKey : TypeKey := ⟨.helper, "Paginate"⟩

def rootKey (r : Root) : TypeKey := ⟨.root, r.typeName⟩

/-! ## Flags of unread definitions -/

/-- A list flag given as any value: only true asks for a list. -/
def asksList (flag : Value) : Bool := flag matches .bool true

/-- A flag for not null given as any value: true asks for it, and so does null, which counts as not
said. -/
def asksRequired (flag : Value) : Bool :=
  match flag with
  | .null | .bool true => true
  | _ => false

end EntityGraph.Schema
