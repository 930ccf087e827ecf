import EntityGraph.Calendar
import EntityGraph.Violation

/-!
# Failures

Everything that an operation of the compiler can fail with, and how deep data may be nested before
that is a failure.

* `Limits`: the room that the stack has for nested data;
* `Failure`: the causes;
* `Failure.title`: the name of the class of a failure;
* `Failure.message?`: its text; a source that cannot be laid out has none;
* `Failure.text`: title and text on one line, as reports give them.
-/

namespace EntityGraph

/-- The room that the stack has for nested data.  It depends on the machine and on what the stack
holds already, so nothing is assumed about the numbers. -/
class Limits where
  /-- Collections of a text inside one another. -/
  nodes : Nat
  /-- Merged mappings inside one another. -/
  merges : Nat
  /-- Defaults that lead from one to the next. -/
  defaults : Nat
  /-- Levels of a value that is written. -/
  values : Nat
  /-- Brackets inside one another in a statement that is laid out. -/
  layouts : Nat

/-- The room on an empty stack of the usual size. -/
instance usualLimits : Limits := ⟨490, 980, 980, 985, 980⟩

/-- The causes of a failure. -/
inductive Failure where
  /-- A failure of no particular kind. -/
  | general (message : String)
  | unknownType (name : String)
  | unsupportedOperation (kind : String)
  | unknownValidator (kind : String)
  | modelNotFound (name : String)
  | sessionFinalized (model : String)
  /-- Definitions that break the structural rules. -/
  | invalidDefinitions (violations : List Violation)
  /-- A record that was asked for on its own and breaks its rules. -/
  | invalidRecord (violations : List Violation)
  | reservedType (name : String)
  | duplicateType (name : String)
  | notAKey (typeName : String)
  | emptyName
  | nameCharacters (name : String)
  | nameStart (name : String)
  /-- An attribute that is computed and cannot be assigned. -/
  | computedAttribute (name owner : String)
  /-- An attribute that shows how a record is kept and cannot be assigned. -/
  | innerAttribute (name owner : String)
  /-- An attribute that values of a type do not have. -/
  | lacksAttribute (typeName name : String)
  /-- A text tagged as a type that it does not spell. -/
  | unreadableScalar (message : String)
  | unknownWord (word : List Text.Point)
  /-- A number without digits. -/
  | emptyNumber
  /-- A number that no machine word holds. -/
  | numberTooLarge
  /-- A number beyond the range of floats. -/
  | beyondFloats
  | notATimestamp
  /-- A value that is not of the kind that an operation takes. -/
  | wrongKind (message : String)
  /-- Data that is nested too deep to be read or laid out. -/
  | nestedTooDeep
  /-- A value with more levels than can be written. -/
  | valueTooDeep
  /-- A number with more digits than can be written. -/
  | numberTooLong
  /-- A module text that is not well-formed source. -/
  | malformedSource

namespace Failure

def title : Failure → String
  | general _ => "GraphGenError"
  | unknownType _ => "UnknownTypeError"
  | unsupportedOperation _ => "UnsupportedOperationError"
  | unknownValidator _ => "UnknownValidatorError"
  | modelNotFound _ => "ModelNotFoundError"
  | sessionFinalized _ => "SessionFinalizedError"
  | invalidDefinitions _ => "ModelValidationError"
  | invalidRecord _ => "ValidationError"
  | reservedType _ | duplicateType _ | notAKey _ | wrongKind _ => "TypeError"
  | emptyName | nameCharacters _ | nameStart _ => "GraphQLError"
  | computedAttribute .. | innerAttribute .. | lacksAttribute .. | notATimestamp => "AttributeError"
  | unreadableScalar _ | numberTooLong => "ValueError"
  | unknownWord _ => "KeyError"
  | emptyNumber => "IndexError"
  | numberTooLarge | beyondFloats => "OverflowError"
  | nestedTooDeep | valueTooDeep => "RecursionError"
  | malformedSource => "InvalidInput"

def message? : Failure → Option String
  | general message => some message
  | unknownType name => some ("Unsupported type: " ++ name)
  | unsupportedOperation kind => some ("Unsupported operation type: " ++ kind)
  | unknownValidator kind => some ("Unknown validator: " ++ kind)
  | modelNotFound name => some ("Model " ++ name ++ " not found")
  | sessionFinalized model =>
    some ("Cannot add model " ++ model ++ ": the session is already finalized")
  | invalidDefinitions violations => some (batchText (violations.map Violation.line))
  | invalidRecord _ => none
  | reservedType name => some ("Redefinition of reserved type " ++ Literal.quoted name)
  | duplicateType name =>
    some ("Schema must contain uniquely named types but contains multiple types named " ++
      Literal.quoted name ++ ".")
  | notAKey typeName => some ("unhashable type: '" ++ typeName ++ "'")
  | emptyName => some "Expected name to be a non-empty string."
  | nameCharacters name =>
    some ("Names must only contain [_a-zA-Z0-9] but " ++ Literal.quoted name ++ " does not.")
  | nameStart name =>
    some ("Names must start with [_a-zA-Z] but " ++ Literal.quoted name ++ " does not.")
  | computedAttribute name owner =>
    some ("property '" ++ name ++ "' of '" ++ owner ++ "' object has no setter")
  | innerAttribute name owner =>
    some ("attribute '" ++ name ++ "' of '" ++ owner ++ "' objects is not writable")
  | lacksAttribute typeName name =>
    some ("'" ++ typeName ++ "' object has no attribute '" ++ name ++ "'")
  | unreadableScalar message | wrongKind message => some message
  | unknownWord word => some (String.ofList (Literal.quotedPoints word))
  | emptyNumber => some "string index out of range"
  | numberTooLarge => some "Python int too large to convert to C int"
  | beyondFloats => some "int too large to convert to float"
  | notATimestamp => some "'NoneType' object has no attribute 'groupdict'"
  | nestedTooDeep => some "maximum recursion depth exceeded"
  | valueTooDeep =>
    some "maximum recursion depth exceeded while getting the repr of an object"
  | numberTooLong =>
    some ("Exceeds the limit (" ++ toString Value.mostDigits ++ " digits) for integer string " ++
      "conversion; use sys.set_int_max_str_digits() to increase the limit")
  | malformedSource => none

def text (f : Failure) : String :=
  match f.message? with
  | some message => f.title ++ ": " ++ message
  | none => f.title

end Failure

/-- What the writing of a value with a flaw fails with. -/
def Value.Flaw.failure : Flaw → Failure
  | tooLong => .numberTooLong
  | tooDeep => .valueTooDeep

end EntityGraph
