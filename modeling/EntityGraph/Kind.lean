/-!
# Kinds of operations

An operation on an entity is one of five kinds.  Two of them read and hang on the `Query` root,
three of them write and hang on the `Mutation` root.

* `Kind.label`, `Kind.ofLabel?`: a kind and its label determine each other;
* `Kind.root`: the root that an operation of a kind belongs to;
* `Kind.serviceMethod`: the service method that an operation of a kind delegates to.
-/

namespace EntityGraph

/-- The five kinds of operations. -/
inductive Kind where
  | view
  | list
  | create
  | update
  | remove
deriving DecidableEq, Repr, Inhabited

/-- The two roots of a schema. -/
inductive Root where
  | query
  | mutation
deriving DecidableEq, Repr, Inhabited

namespace Kind

def all : List Kind := [view, list, create, update, remove]

/-- The label of a kind, as definitions and type names spell it. -/
def label : Kind → String
  | .view => "Show"
  | .list => "List"
  | .create => "Create"
  | .update => "Update"
  | .remove => "Remove"

def ofLabel? (s : String) : Option Kind := all.find? fun k => k.label == s

/-- Reading kinds belong to the query root, writing kinds to the mutation root. -/
def root : Kind → Root
  | .view | .list => .query
  | .create | .update | .remove => .mutation

/-- The service method that answers an operation of a kind. -/
def serviceMethod : Kind → String
  | .view | .list => "find"
  | .create => "create"
  | .update => "update"
  | .remove => "remove"

theorem ofLabel?_label (k : Kind) : ofLabel? k.label = some k := by
  cases k <;> decide

end Kind

namespace Root

/-- The keyword of a root in an executable document, and the name of its registry in the generated
module. -/
def keyword : Root → String
  | .query => "query"
  | .mutation => "mutation"

def typeName : Root → String
  | .query => "Query"
  | .mutation => "Mutation"

end Root

end EntityGraph
