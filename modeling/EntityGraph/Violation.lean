import EntityGraph.Value.Literal

/-!
# Violations

What a structural check finds wrong with a value, and where in it.

* `Step`, `Violation.path`: the way from the value as a whole to the part at fault;
* `Fault`: the causes, with `Fault.message` and `Fault.code`;
* `Violation.line`: a violation on one line, as batches list it;
* `Checked`: the outcome of a check, the value it read or every violation it found.
-/

namespace EntityGraph

/-- One step into a value: to a named part or to a numbered one. -/
inductive Step where
  | name (s : String)
  | index (i : Int)
deriving DecidableEq, Repr, Inhabited

def Step.plain : Step → String
  | name s => s
  | index i => toString i

/-- Integers of 64 bits. -/
def fitsWord (i : Int) : Bool := -Int.pow 2 63 ≤ i && i < Int.pow 2 63

/-- The step that a key of a mapping stands for.  A truth value counts as its number, and a key that
is neither a text nor a number of a machine word as its literal, if it has one. -/
def Step.ofKey (key : Value) : Step :=
  match key with
  | .text s => .name s
  | .bool b => .index (if b then 1 else 0)
  | .int i => if fitsWord i then .index i else ofLiteral
  | _ => ofLiteral
where
  /-- The literal of a key; a number that is too long to be written has none. -/
  ofLiteral : Step :=
    .name (if key.hasShortNumbers then key.literal else "<unprintable " ++ key.typeName ++ " object>")

/-- What is wrong with a part of a value. -/
inductive Fault where
  | missing
  | extra
  | keyNotText
  | boolExpected
  | boolUnreadable
  | intExpected
  | intUnreadable
  | intTooLong
  | intFractional
  | intInfinite
  | tooSmall (least : Int)
  | tooLarge (greatest : Int)
  | textExpected
  | textUndecodable
  | textTooShort (least : Nat)
  | textTooLong (greatest : Nat)
  | notIdentifier
  | notOneOf (labels : List String)
  | listExpected
  | mappingExpected
  | recordExpected (title : String)
  | unknownValidator (kind : String)
  | noAttribute (name : String)
  | notDefinitions (typeName : String)
  | unreadableText (reason : String)
deriving DecidableEq, Repr

namespace Fault

/-- Labels as alternatives: separated by commas, the last by a conjunction. -/
def alternatives : List String → String
  | [] => ""
  | [a] => a
  | [a, b] => a ++ " or " ++ b
  | a :: rest => a ++ ", " ++ alternatives rest

def characters (n : Nat) : String := toString n ++ (if n = 1 then " character" else " characters")

def message : Fault → String
  | missing => "Field required"
  | extra => "Extra inputs are not permitted"
  | keyNotText => "Keys should be strings"
  | boolExpected => "Input should be a valid boolean"
  | boolUnreadable => "Input should be a valid boolean, unable to interpret input"
  | intExpected => "Input should be a valid integer"
  | intUnreadable => "Input should be a valid integer, unable to parse string as an integer"
  | intTooLong => "Unable to parse input string as an integer, exceeded maximum size"
  | intFractional => "Input should be a valid integer, got a number with a fractional part"
  | intInfinite => "Input should be a finite number"
  | tooSmall n => "Input should be greater than or equal to " ++ toString n
  | tooLarge n => "Input should be less than or equal to " ++ toString n
  | textExpected => "Input should be a valid string"
  | textUndecodable =>
    "Input should be a valid string, unable to parse raw data as a unicode string"
  | textTooShort n => "String should have at least " ++ characters n
  | textTooLong n => "String should have at most " ++ characters n
  | notIdentifier => "String should match pattern '^[A-Za-z_][A-Za-z0-9_]*$'"
  | notOneOf labels => "Input should be " ++ alternatives (labels.map fun l => "'" ++ l ++ "'")
  | listExpected => "Input should be a valid list"
  | mappingExpected => "Input should be a valid dictionary"
  | recordExpected title => "Input should be a valid dictionary or instance of " ++ title
  | unknownValidator kind => "Value error, Unknown validator kind '" ++ kind ++ "'."
  | noAttribute name => "Object has no attribute '" ++ name ++ "'"
  | notDefinitions typeName => "Expected a list or mapping, got " ++ typeName
  | unreadableText reason => "Invalid YAML: " ++ reason

def code : Fault → String
  | missing => "missing"
  | extra => "extra_forbidden"
  | keyNotText => "invalid_key"
  | boolExpected => "bool_type"
  | boolUnreadable => "bool_parsing"
  | intExpected => "int_type"
  | intUnreadable => "int_parsing"
  | intTooLong => "int_parsing_size"
  | intFractional => "int_from_float"
  | intInfinite => "finite_number"
  | tooSmall _ => "greater_than_equal"
  | tooLarge _ => "less_than_equal"
  | textExpected => "string_type"
  | textUndecodable => "string_unicode"
  | textTooShort _ => "string_too_short"
  | textTooLong _ => "string_too_long"
  | notIdentifier => "string_pattern_mismatch"
  | notOneOf _ => "enum"
  | listExpected => "list_type"
  | mappingExpected => "dict_type"
  | recordExpected _ => "model_type"
  | unknownValidator _ => "value_error"
  | noAttribute _ => "no_such_attribute"
  | notDefinitions _ => "type_error"
  | unreadableText _ => "yaml_error"

end Fault

/-- A fault and the path to the part that has it. -/
structure Violation where
  path : List Step
  fault : Fault
deriving DecidableEq, Repr

namespace Violation

/-- The same violation seen from one step further out. -/
def under (step : Step) (v : Violation) : Violation := { v with path := step :: v.path }

/-- A path with points between its steps; the empty path is the root. -/
def pathText (path : List Step) : String :=
  let text := ".".intercalate (path.map Step.plain)
  if text.isEmpty then "<root>" else text

def lineOf (path : List Step) (message : String) : String := pathText path ++ ": " ++ message

def line (v : Violation) : String := lineOf v.path v.fault.message

end Violation

def batchText (lines : List String) : String :=
  "\n".intercalate
    (("Model definitions are invalid (" ++ toString lines.length ++ " error(s)):") ::
      lines.map ("  " ++ ·))

/-- What a check read, or every violation it found. -/
abbrev Checked (α : Type) := Except (List Violation) α

namespace Checked

def fail {α : Type} (fault : Fault) : Checked α := .error [⟨[], fault⟩]

/-- The outcome for a part, with its violations seen from the whole. -/
def under {α : Type} (step : Step) : Checked α → Checked α
  | .ok a => .ok a
  | .error vs => .error (vs.map (Violation.under step))

def violations {α : Type} : Checked α → List Violation
  | .ok _ => []
  | .error vs => vs

/-- Both outcomes, or the violations of both in order. -/
def both {α β : Type} : Checked α → Checked β → Checked (α × β)
  | .ok a, .ok b => .ok (a, b)
  | .ok _, .error ws => .error ws
  | .error vs, .ok _ => .error vs
  | .error vs, .error ws => .error (vs ++ ws)

/-- Every outcome, or the violations of all in order. -/
def all {α : Type} : List (Checked α) → Checked (List α)
  | [] => .ok []
  | c :: cs => (both c (all cs)).map fun p => p.1 :: p.2

end Checked

end EntityGraph
