import EntityGraph.Proofs.Executable.Token

/-!
# Executable documents

The documents of GraphQL that a server runs, in its edition of October 2021, as trees: every
derivation of the grammar is one tree.  A tree has its tokens; a text reads as a document if its
tokens are those of the document.

* `Value`, `Directive`, `Reference`, `Selection`, `Variable`, `Definition`: the trees;
* `group`: what stands between two brackets, or nothing at all;
* `Definition.tokens`: the tokens of a tree;
* `Reads`: the documents that a text reads as.
-/

namespace EntityGraph.Executable

/-! ## Trees -/

/-- A value.  A word is a truth value, null, or a value of an enumeration. -/
inductive Value where
  | variable (name : String)
  | int (text : String)
  | float (text : String)
  | string (text : String)
  | block (text : String)
  | word (name : String)
  | list (items : List Value)
  | object (fields : List (String × Value))

mutual

/-- A value that mentions no variable. -/
def Value.isConstant : Value → Bool
  | .variable _ => false
  | .list items => Value.areConstant items
  | .object fields => Value.areConstantFields fields
  | _ => true

def Value.areConstant : List Value → Bool
  | [] => true
  | v :: vs => v.isConstant && Value.areConstant vs

def Value.areConstantFields : List (String × Value) → Bool
  | [] => true
  | (_, v) :: fs => v.isConstant && Value.areConstantFields fs

end

/-- Names with their values: the arguments of a field or of a directive. -/
abbrev Arguments := List (String × Value)

structure Directive where
  name : String
  arguments : Arguments

def Directive.isConstant (d : Directive) : Bool := Value.areConstantFields d.arguments

/-- The name of a fragment: any name but the word before a type condition. -/
abbrev FragmentName := { name : String // name ≠ "on" }

/-- What is selected: a field under its name or another, with selections of its own if there are
any; a fragment; or selections that hold for one type or for all. -/
inductive Selection where
  | field (as? : Option String) (name : String) (arguments : Arguments)
      (directives : List Directive) (selections : List Selection)
  | spread (fragment : FragmentName) (directives : List Directive)
  | inline (type? : Option String) (directives : List Directive) (first : Selection)
      (others : List Selection)

/-- A set of selections is not empty. -/
abbrev SelectionSet := { selections : List Selection // selections ≠ [] }

/-- A reference to a type, one that excludes null if `required` holds. -/
inductive Reference where
  | named (name : String) (required : Bool)
  | list (item : Reference) (required : Bool)

/-- A variable of an operation. -/
structure Variable where
  name : String
  type : Reference
  default? : Option { v : Value // v.isConstant = true }
  directives : List { d : Directive // d.isConstant = true }

/-- The words that start an operation. -/
inductive Keyword where
  | query
  | mutation
  | subscription
deriving DecidableEq

/-- A definition: an operation, a query that consists of its selections only, or a fragment. -/
inductive Definition where
  | operation (keyword : Keyword) (name? : Option String) (parameters : List Variable)
      (directives : List Directive) (selections : SelectionSet)
  | query (selections : SelectionSet)
  | fragment (name : FragmentName) (type : String) (directives : List Directive)
      (selections : SelectionSet)

/-! ## Tokens -/

def enclosed (opening closing : Mark) (ts : List Token) : List Token :=
  .mark opening :: ts ++ [.mark closing]

/-- What stands between two brackets, or nothing at all. -/
def group (opening closing : Mark) (ts : List Token) : List Token :=
  if ts.isEmpty then [] else enclosed opening closing ts

mutual

def Value.tokens : Value → List Token
  | .variable name => [.mark .dollar, .name name]
  | .int text => [.int text]
  | .float text => [.float text]
  | .string text => [.string text]
  | .block text => [.block text]
  | .word name => [.name name]
  | .list items => enclosed .openSquare .closeSquare (Value.itemTokens items)
  | .object fields => enclosed .openCurly .closeCurly (Value.fieldTokens fields)

def Value.itemTokens : List Value → List Token
  | [] => []
  | v :: vs => v.tokens ++ Value.itemTokens vs

def Value.fieldTokens : List (String × Value) → List Token
  | [] => []
  | (name, v) :: fs => .name name :: .mark .colon :: v.tokens ++ Value.fieldTokens fs

end

def Arguments.tokens (arguments : Arguments) : List Token :=
  group .openRound .closeRound (Value.fieldTokens arguments)

def Directive.tokens (d : Directive) : List Token :=
  .mark .atSign :: .name d.name :: d.arguments.tokens

/-- The tokens of a condition that selections hold for one type. -/
def conditionTokens : Option String → List Token
  | none => []
  | some type => [.name "on", .name type]

/-- The tokens of the name that a field is given in the result. -/
def aliasTokens : Option String → List Token
  | none => []
  | some as => [.name as, .mark .colon]

mutual

def Selection.tokens : Selection → List Token
  | .field as? name arguments directives selections =>
    aliasTokens as? ++ .name name :: arguments.tokens ++ directives.flatMap Directive.tokens ++
      group .openCurly .closeCurly (Selection.listTokens selections)
  | .spread fragment directives =>
    .mark .spread :: .name fragment.1 :: directives.flatMap Directive.tokens
  | .inline type? directives first others =>
    .mark .spread :: conditionTokens type? ++ directives.flatMap Directive.tokens ++
      enclosed .openCurly .closeCurly (first.tokens ++ Selection.listTokens others)

def Selection.listTokens : List Selection → List Token
  | [] => []
  | s :: ss => s.tokens ++ Selection.listTokens ss

end

def SelectionSet.tokens (ss : SelectionSet) : List Token :=
  enclosed .openCurly .closeCurly (Selection.listTokens ss.1)

/-- The token at the end of a reference that excludes null. -/
def requiredTokens (required : Bool) : List Token := if required then [.mark .bang] else []

def Reference.tokens : Reference → List Token
  | named name required => .name name :: requiredTokens required
  | list item required => enclosed .openSquare .closeSquare item.tokens ++ requiredTokens required

def defaultTokens : Option { v : Value // v.isConstant = true } → List Token
  | none => []
  | some v => .mark .equals :: v.1.tokens

def Variable.tokens (v : Variable) : List Token :=
  .mark .dollar :: .name v.name :: .mark .colon :: v.type.tokens ++ defaultTokens v.default? ++
    v.directives.flatMap fun d => d.1.tokens

def Keyword.text : Keyword → String
  | query => "query"
  | mutation => "mutation"
  | subscription => "subscription"

def Definition.tokens : Definition → List Token
  | operation keyword name? parameters directives selections =>
    .name keyword.text :: (name?.map Token.name).toList ++
      group .openRound .closeRound (parameters.flatMap Variable.tokens) ++
      directives.flatMap Directive.tokens ++ selections.tokens
  | query selections => selections.tokens
  | fragment name type directives selections =>
    .name "fragment" :: .name name.1 :: .name "on" :: .name type ::
      directives.flatMap Directive.tokens ++ selections.tokens

/-! ## Texts -/

/-- The text of a document: one definition at least, in tokens. -/
def Reads (text : String) (ds : List Definition) : Prop :=
  ds ≠ [] ∧ scan text.toList = some (ds.flatMap Definition.tokens)

end EntityGraph.Executable
