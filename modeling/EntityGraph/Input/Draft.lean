import EntityGraph.Input.Definitions
import EntityGraph.Schema.TypeExpr

/-!
# Drafts

Definitions taken as they are, without the structural rules: no part is refused or read as something
else, and a part that is absent has its default.  The compiler meets such definitions where a caller
has built them by hand, and must refuse what it cannot compile by itself.

* `Draft.model`, `Draft.operation`, `Draft.validator`: drafts from values.
-/

namespace EntityGraph.Input.Draft

/-- The entries of a value, none unless it is a mapping. -/
def entries : Value → List (Value × Value)
  | .map es => es
  | _ => []

def textAt (key : String) (v : Value) : String :=
  ((Value.get? key (entries v)).map Value.plain).getD ""

/-- The items of a part, none unless it is a list. -/
def itemsAt (key : String) (v : Value) : List Value :=
  match Value.get? key (entries v) with
  | some (.list xs) => xs
  | _ => []

/-- A part that asks for a list; only the truth value itself does. -/
def listAt (v : Value) : Bool := ((Value.get? "list" (entries v)).map Schema.asksList).getD false

/-- A part that asks for a value that is not null, as it does by default. -/
def requiredAt (v : Value) : Bool :=
  ((Value.get? "required" (entries v)).map Schema.asksRequired).getD true

def bagAt (v : Value) : List (Value × Value) :=
  ((Value.get? "properties" (entries v)).map entries).getD []

def validator (v : Value) : Validator := ⟨textAt "type" v, bagAt v⟩

def permission (v : Value) : Permission := ⟨textAt "role" v, textAt "type" v⟩

def argument (v : Value) : Argument :=
  ⟨textAt "name" v, textAt "type" v, listAt v, requiredAt v,
    (itemsAt "validators" v).map validator⟩

def property (v : Value) : Property :=
  ⟨textAt "name" v, textAt "type" v, listAt v, requiredAt v, false,
    (itemsAt "permissions" v).map permission⟩

def relationship (v : Value) : Relationship :=
  ⟨textAt "name" v, textAt "type" v, listAt v, requiredAt v⟩

def operation (v : Value) : Operation :=
  ⟨textAt "name" v, textAt "type" v, (itemsAt "arguments" v).map argument,
    (itemsAt "permissions" v).map permission⟩

def model (v : Value) : Model :=
  ⟨textAt "name" v, (itemsAt "properties" v).map property,
    (itemsAt "relationships" v).map relationship, (itemsAt "operations" v).map operation⟩

end EntityGraph.Input.Draft
