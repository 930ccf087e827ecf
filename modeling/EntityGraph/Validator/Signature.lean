import EntityGraph.Failure
import EntityGraph.Model

/-!
# Validator signatures

Each known kind of validator takes its parameters from the bag in one of four ways.  A signature
says which, and turns a validator into the statement that attaches it to a field of an input type.

* `Signature`: the four ways;
* `signature?`: the signature of a kind, `none` for an unknown one;
* `Signature.parameters`: the parameters that a bag yields under a signature;
* `Validator.flaw?`: what keeps the statement of a validator from being written;
* `Statement.text`: a statement as source text.
-/

namespace EntityGraph

/-- How a kind of validator takes its parameters from the bag. -/
inductive Signature where
  /-- No parameters. -/
  | bare
  /-- One parameter per key, absent ones at the end left out. -/
  | positional (keys : List String)
  /-- One parameter per leading key, then all other entries of the bag as one mapping. -/
  | options (leading : List String)
  /-- The name of another type, under one key. -/
  | reference (key : String)
deriving DecidableEq, Repr

/-- A statement that attaches a validator: a call with parameters, applied to the target type and to
the field. -/
structure Statement where
  kind : String
  parameters : List Value
  target : String
  field : String

namespace Signature

/-- The kinds without parameters. -/
def bareKinds : List String := [
  "Allow", "ArrayNotEmpty", "ArrayUnique", "IsArray", "IsAscii", "IsBIC", "IsBase32", "IsBoolean",
  "IsBooleanString", "IsBtcAddress", "IsCreditCard", "IsDataURI", "IsDate", "IsDefined", "IsEAN",
  "IsEmpty", "IsEthereumAddress", "IsFirebasePushId", "IsFullWidth", "IsHSLColor", "IsHalfWidth",
  "IsHexColor", "IsHexadecimal", "IsIBAN", "IsISIN", "IsISO31661Alpha2", "IsISO31661Alpha3",
  "IsISRC", "IsInt", "IsJSON", "IsJWT", "IsLatLong", "IsLatitude", "IsLocale", "IsLongitude",
  "IsLowercase", "IsMagnetURI", "IsMilitaryTime", "IsMimeType", "IsMongoId", "IsMultibyte",
  "IsNegative", "IsNotEmpty", "IsObject", "IsOctal", "IsOptional", "IsPort", "IsPositive",
  "IsRFC3339", "IsSemVer", "IsString", "IsSurrogatePair", "IsUppercase", "IsVariableWidth"]

/-- The kinds that take an options mapping only. -/
def optionsKinds : List String := [
  "IsBase64", "IsCurrency", "IsDateString", "IsDecimal", "IsEmail", "IsFQDN", "IsISO8601", "IsISSN",
  "IsMACAddress", "IsNotEmptyObject", "IsNumber", "IsNumberString", "IsUrl"]

/-- The kinds with parameters of their own, and the keys of these in order. -/
def positionalKinds : List (String × List String) := [
  ("ArrayContains", ["values"]), ("ArrayMaxSize", ["max"]), ("ArrayMinSize", ["min"]),
  ("ArrayNotContains", ["values"]), ("Contains", ["seed"]), ("Equals", ["comparison"]),
  ("IsAlpha", ["locale"]), ("IsAlphanumeric", ["locale"]), ("IsByteLength", ["min", "max"]),
  ("IsDivisibleBy", ["num"]), ("IsHash", ["algorithm"]), ("IsIP", ["version"]),
  ("IsISBN", ["version"]), ("IsIdentityCard", ["locale"]), ("IsIn", ["values"]),
  ("IsNotIn", ["values"]), ("IsPassportNumber", ["countryCode"]), ("IsPhoneNumber", ["region"]),
  ("IsPostalCode", ["locale"]), ("IsRgbColor", ["includePercentValues"]), ("IsUUID", ["version"]),
  ("Length", ["min", "max"]), ("Matches", ["pattern", "modifiers"]), ("Max", ["max"]),
  ("MaxDate", ["date"]), ("MaxLength", ["max"]), ("Min", ["min"]), ("MinDate", ["date"]),
  ("MinLength", ["min"]), ("NotContains", ["seed"]), ("NotEquals", ["comparison"])]

def table : List (String × Signature) :=
  bareKinds.map (fun kind => (kind, bare)) ++
  optionsKinds.map (fun kind => (kind, options [])) ++
  positionalKinds.map (fun entry => (entry.1, positional entry.2)) ++
  [("IsMobilePhone", options ["locale"]), ("IsEnum", reference "entity"),
    ("IsInstance", reference "targetType")]

/-- A list without the items at its end that satisfy a test. -/
def dropEnd {α : Type} (p : α → Bool) : List α → List α
  | [] => []
  | x :: xs =>
    match dropEnd p xs with
    | [] => if p x then [] else [x]
    | rest => x :: rest

/-- The parameters that a bag yields under a signature; null stands for an absent one.  Positional
parameters end with the last key that is present.  Leading parameters of an options kind that are
null are left out if nothing follows them. -/
def parameters (bag : List (Value × Value)) : Signature → List Value
  | bare => []
  | positional keys =>
    (dropEnd Option.isNone (keys.map fun key => Value.get? key bag)).map (·.getD .null)
  | options leading =>
    let rest := bag.filter fun e => !leading.any fun key => e.1 == .text key
    let first := leading.map fun key => (Value.get? key bag).getD .null
    if rest.isEmpty then dropEnd (· matches .null) first
    else first ++ [.map rest]
  | reference key =>
    match Value.get? key bag with
    | none | some .null => []
    | some v => [v.asText]

/-- The values of a bag that are written under a signature. -/
def written (bag : List (Value × Value)) : Signature → List Value
  | reference key => (Value.get? key bag).toList
  | signature => signature.parameters bag

end Signature

def signature? (kind : String) : Option Signature :=
  (Signature.table.find? fun e => e.1 == kind).map (·.2)

def isValidatorKind (kind : String) : Bool := (signature? kind).isSome

/-- The calls that stand around the writing of a parameter, the one that writes the statement not
counted. -/
def Signature.calls : Signature → Nat
  | bare | reference _ => 0
  | positional _ => 2
  | options _ => 1

section

variable [Limits]

/-- The first flaw in the parameters of a validator. -/
def Validator.flaw? (v : Validator) : Option Value.Flaw :=
  (signature? v.kind).bind fun signature =>
    (signature.written v.bag).findSome? (Value.flaw? (Limits.values - signature.calls))

/-- A validator whose statement can be written. -/
def Validator.hasText (v : Validator) : Bool := v.flaw?.isNone

end

def Statement.text (s : Statement) : String :=
  s.kind ++ "(" ++ ", ".intercalate (s.parameters.map Value.literal) ++ ")(" ++
    Literal.quoted s.target ++ ", " ++ Literal.quoted s.field ++ ")"

/-- The statement that attaches a validator to a field of a type, if its kind is known. -/
def Validator.statement? (v : Validator) (target field : String) : Option Statement :=
  (signature? v.kind).map fun signature => ⟨v.kind, signature.parameters v.bag, target, field⟩

end EntityGraph
