/-!
# Tables

A finite map from texts that remembers the order in which its keys were first written.  Writing a
key again replaces its value in place.

* `Table.put`, `Table.get?`, `Table.keys`: writing, reading, and the keys in order;
* `Table.putAll`: many writes, the last one to a key winning.
-/

namespace EntityGraph

/-- A map in the order of first writes. -/
abbrev Table (α : Type) := List (String × α)

namespace Table

variable {α : Type}

def keys (t : Table α) : List String := t.map (·.1)

def values (t : Table α) : List α := t.map (·.2)

def get? (t : Table α) (key : String) : Option α :=
  match t with
  | [] => none
  | (k, v) :: rest => if k = key then some v else get? rest key

def has (t : Table α) (key : String) : Bool := (t.get? key).isSome

def put (t : Table α) (key : String) (value : α) : Table α :=
  match t with
  | [] => [(key, value)]
  | (k, v) :: rest => if k = key then (k, value) :: rest else (k, v) :: put rest key value

/-- The writes of a list in order. -/
def putAll (t : Table α) (writes : List (String × α)) : Table α :=
  writes.foldl (fun t w => t.put w.1 w.2) t

end Table

end EntityGraph
