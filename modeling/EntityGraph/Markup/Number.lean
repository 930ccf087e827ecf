import EntityGraph.Markup.Mark
import EntityGraph.Markup.Tag
import EntityGraph.Text.Class
import EntityGraph.Text.Lowercase

/-!
# Numbers

The numbers that tagged scalars spell: integers in base two, eight, ten, sixteen and sixty, and
floats in base ten and sixty.  Underscores count for nothing, and the digits of every script will
do.

* `intOfPoints`, `floatOfPoints`: the number that a scalar spells.
-/

namespace EntityGraph.Markup

open Text (Point)

/-! ## Digits -/

/-- The ASCII character that a code point stands for in a number: a digit of any script is a digit,
a blank of any script is a blank, and what else is not ASCII stands for nothing. -/
def plainChar : Point → Char
  | .half _ => '?'
  | .char c =>
    if c.toNat < 0x80 then c
    else if Text.isBlank c then ' '
    else ((Text.decimalDigit? c).map fun d => Char.ofNat (48 + d)).getD '?'

def isNumberBlank (c : Char) : Bool := c = ' ' || ('\t' ≤ c && c ≤ '\r')

/-- The ASCII form of a number without the blanks around it. -/
def plainNumber (ps : List Point) : List Char :=
  (((ps.map plainChar).dropWhile isNumberBlank).reverse.dropWhile isNumberBlank).reverse

/-- The value of a digit in bases up to sixteen. -/
def digitValue? (c : Char) : Option Nat :=
  if c.isDigit then some (c.toNat - 48)
  else if 'a' ≤ c && c ≤ 'f' then some (c.toNat - 87)
  else if 'A' ≤ c && c ≤ 'F' then some (c.toNat - 55)
  else none

/-- The number that digits spell in a base; there must be some. -/
def digitsIn? (base : Nat) : List Char → Option Nat
  | [] => none
  | cs => cs.foldlM (fun n c => (digitValue? c).bind fun d =>
      if d < base then some (n * base + d) else none) 0

/-- The letter after a zero that marks a base. -/
def baseLetter (base : Nat) : List Char :=
  match base with
  | 2 => ['b', 'B']
  | 8 => ['o', 'O']
  | 16 => ['x', 'X']
  | _ => []

def withoutMark (base : Nat) : List Char → List Char
  | '0' :: c :: rest => if (baseLetter base).contains c then rest else '0' :: c :: rest
  | cs => cs

/-- A row without its sign, and whether that is a minus. -/
def splitSign {α : Type} [BEq α] (minus plus : α) : List α → Bool × List α
  | [] => (false, [])
  | c :: rest =>
    if c == minus then (true, rest) else if c == plus then (false, rest) else (false, c :: rest)

/-- The refusal of a text that spells no integer.  Only its first part is shown. -/
def notAnInt (base : Nat) (ps : List Point) : Failure :=
  .unreadableScalar ("invalid literal for int() with base " ++ toString base ++ ": " ++
    String.ofList ((Literal.quotedPoints ps).take 200))

/-! ## Integers -/

/-- The integer that a text spells in a base, with blanks around it, a sign, and the mark of the
base.  A number in base ten with too many digits is refused as such whatever follows them. -/
def intIn (base : Nat) (ps : List Point) : Except Failure Int :=
  let (negative, body) := splitSign '-' '+' (plainNumber ps)
  let ds := withoutMark base body
  let count := (ds.takeWhile Char.isDigit).length
  if base = 10 && count > Value.mostDigits then .error (tooManyDigits count)
  else
    match digitsIn? base ds with
    | none => .error (notAnInt base ps)
    | some n => .ok (if negative then -(n : Int) else n)

/-- The integer whose places in base sixty are given, the highest first. -/
def sexagesimal (places : List Int) : Int := places.foldl (fun n d => n * 60 + d) 0

def magnitudeOf (ps : List Point) : Except Failure Int :=
  match ps with
  | [] => .error .emptyNumber
  | [.char '0'] => .ok 0
  | .char '0' :: .char 'b' :: rest => intIn 2 rest
  | .char '0' :: .char 'x' :: rest => intIn 16 rest
  | .char '0' :: _ => intIn 8 ps
  | _ =>
    if ps.contains (.char ':') then
      ((Tag.atColons (.char ':') [] ps).mapM (intIn 10)).map sexagesimal
    else intIn 10 ps

def withoutUnderscores (ps : List Point) : List Point := ps.filter (· != .char '_')

def intOfPoints (ps : List Point) : Except Failure Int :=
  let ps := withoutUnderscores ps
  let (negative, body) := splitSign (.char '-') (.char '+') ps
  if ps.isEmpty then .error .emptyNumber
  else (magnitudeOf body).map fun n => if negative then -n else n

/-! ## Floats -/

def notAFloat (ps : List Point) : Failure :=
  .unreadableScalar ("could not convert string to float: " ++
    String.ofList (Literal.quotedPoints ps))

/-- An exponent at the end of a number, zero if there is none. -/
def exponent? : List Char → Option Int
  | [] => some 0
  | e :: rest =>
    if e = 'e' || e = 'E' then
      let (negative, ds) := splitSign '-' '+' rest
      (digitsIn? 10 ds).map fun n => if negative then -(n : Int) else n
    else none

/-- A number in base ten with a point or without, and an exponent perhaps. -/
def decimal? (negative : Bool) (cs : List Char) : Option Binary64 :=
  let whole := cs.takeWhile Char.isDigit
  let rest := cs.drop whole.length
  let places := match rest with
    | '.' :: more => more.takeWhile Char.isDigit
    | _ => []
  let tail := match rest with
    | '.' :: more => more.drop places.length
    | _ => rest
  if whole.isEmpty && places.isEmpty then none
  else (exponent? tail).map fun e =>
    Binary64.ofDecimal negative (numberOf (whole ++ places)) (e - (places.length : Int))

/-- The float that a text in small letters spells, with blanks around it and a sign. -/
def floatIn (ps : List Point) : Except Failure Binary64 :=
  let (negative, body) := splitSign '-' '+' (plainNumber ps)
  if body = "inf".toList || body = "infinity".toList then .ok (.infinite negative)
  else if body = "nan".toList then .ok .nan
  else
    match decimal? negative body with
    | some x => .ok x
    | none => .error (notAFloat ps)

/-- The sum of places in base sixty, the lowest first, each rounded as it is added; `weight` is that
of the first place. -/
def sumOfPlaces (weight : Nat) (total : Binary64) : List Binary64 → Except Failure Binary64
  | [] => .ok total
  | d :: rest =>
    match Binary64.ofInt weight with
    | .infinite _ => .error .beyondFloats
    | w => sumOfPlaces (weight * 60) (total.add (d.mul w)) rest

def isWord (word : String) (ps : List Point) : Bool := ps == word.toList.map .char

def floatMagnitude (ps : List Point) : Except Failure Binary64 :=
  if isWord ".inf" ps then .ok (.infinite false)
  else if isWord ".nan" ps then .ok .nan
  else if ps.contains (.char ':') then
    ((Tag.atColons (.char ':') [] ps).mapM floatIn).bind fun places =>
      sumOfPlaces 1 (Binary64.zero false) places.reverse
  else floatIn ps

/-- The sign and the magnitude of a float as a scalar spells them. -/
def floatParts (ps : List Point) : Bool × List Point :=
  splitSign (.char '-') (.char '+') (Text.toLower (withoutUnderscores ps))

def floatOfPoints (ps : List Point) : Except Failure Binary64 :=
  let (negative, body) := floatParts ps
  if (withoutUnderscores ps).isEmpty then .error .emptyNumber
  else (floatMagnitude body).map fun x => if negative then x.neg else x

/-- The spellings of the undefined number that have a word of their own. -/
def isUndefinedWord (ps : List Point) : Bool := isWord ".nan" (floatParts ps).2

end EntityGraph.Markup
