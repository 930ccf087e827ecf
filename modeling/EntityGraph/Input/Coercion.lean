import EntityGraph.Text.Class
import EntityGraph.Violation

/-!
# Lenient readings of plain values

How a truth value, an integer and a text are read from values that merely stand for them.  A truth
value may be written as a word or as the numbers one and zero, an integer as a decimal text or a
number without a fraction, and a text as its bytes.  Nothing is read from a text with code points
that are no characters.

* `Input.bool`, `Input.int`, `Input.text`: the three readings;
* `Input.atLeast`, `Input.within`, `Input.identifier`, `Input.oneOf`: readings with a bound.
-/

namespace EntityGraph.Input

open Checked

def decode? (bs : List UInt8) : Option String := String.fromUTF8? ⟨bs.toArray⟩

/-- A text, or the text that a byte string encodes. -/
def text : Value → Checked String
  | .text s => .ok s
  | .illFormed _ => fail .textUndecodable
  | .bytes bs =>
    match decode? bs with
    | some s => .ok s
    | none => fail .textUndecodable
  | _ => fail .textExpected

/-! ## Truth values -/

def trueWords : List String := ["1", "t", "y", "on", "yes", "true"]

def falseWords : List String := ["0", "f", "n", "no", "off", "false"]

/-- A word for a truth value, in any case. -/
def boolOfWord (s : String) : Checked Bool :=
  let w := String.ofList (s.toList.map Char.toLower)
  if falseWords.contains w then .ok false
  else if trueWords.contains w then .ok true
  else fail .boolUnreadable

/-- One and zero stand for the truth values. -/
def boolOfInt (i : Int) : Checked Bool :=
  if i = 0 then .ok false else if i = 1 then .ok true else fail .boolUnreadable

/-- The whole numbers that a float may stand for: those inside the bounds of a word. -/
def isWithinWord (i : Int) : Bool := -Int.pow 2 63 < i && i < Int.pow 2 63

def bool : Value → Checked Bool
  | .bool b => .ok b
  | .int i => if fitsWord i then boolOfInt i else fail .boolExpected
  | .text s => boolOfWord s
  | .illFormed _ => fail .textUndecodable
  | .bytes bs =>
    match decode? bs with
    | some s => boolOfWord s
    | none => fail .boolUnreadable
  | .float x =>
    match x.toInt? with
    | some i => if isWithinWord i then boolOfInt i else fail .boolExpected
    | none => fail .boolExpected
  | _ => fail .boolExpected

/-! ## Integers -/

/-- White space around a number; the separator controls do not count. -/
def isNumberSpace (c : Char) : Bool := Text.isBlank c && !(0x1C ≤ c.toNat && c.toNat ≤ 0x1F)

def trimNumber (cs : List Char) : List Char :=
  ((cs.dropWhile isNumberSpace).reverse.dropWhile isNumberSpace).reverse

/-- What remains of a number after its first zero: further zeros, and underscores between them, go
until another digit or a minus sign; a zero stays before a point and at the end. -/
def afterZeros : (previous : Char) → List Char → Option (List Char)
  | previous, [] => some [previous]
  | previous, c :: rest =>
    if c = '0' || c = '_' then afterZeros c rest
    else if c.isDigit || c = '-' then some (c :: rest)
    else if c = '.' then some (previous :: c :: rest)
    else none

/-- A number without sign and without leading zeros; it starts with a digit. -/
def withoutZeros : List Char → Option (List Char)
  | '0' :: rest => afterZeros '0' rest
  | c :: rest => if c.isDigit then some (c :: rest) else none
  | [] => none

/-- A number without leading zeros, a minus sign before them kept. -/
def withoutSignedZeros : List Char → Option (List Char)
  | '-' :: rest => (withoutZeros rest).map ('-' :: ·)
  | cs => withoutZeros cs

/-- A number without a plus sign, which no minus sign may follow. -/
def withoutPlus : List Char → Option (List Char)
  | '+' :: '-' :: _ => none
  | '+' :: rest => some rest
  | cs => some cs

/-- A number without a fraction of zeros. -/
def withoutFraction (cs : List Char) : List Char :=
  match cs.dropWhile (· != '.') with
  | _ :: zeros =>
    if !zeros.isEmpty && zeros.all (· == '0') then cs.takeWhile (· != '.') else cs
  | [] => cs

def hasDoubleUnderscore : List Char → Bool
  | '_' :: '_' :: _ => true
  | _ :: rest => hasDoubleUnderscore rest
  | [] => false

/-- A number without underscores, which divide digits and stand alone between them. -/
def withoutUnderscores (cs : List Char) : List Char :=
  if cs.head? == some '_' || cs.getLast? == some '_' || hasDoubleUnderscore cs then cs
  else cs.filter (· != '_')

/-- The most characters of an integer. -/
def mostCharacters : Nat := 4300

/-- An optional minus sign and digits, without needless zeros.  A number that is too long is refused
as such whatever follows it. -/
def plainInt (cs : List Char) : Checked Int :=
  let (sign, rest) := cs.span (· = '-')
  let ds := rest.takeWhile Char.isDigit
  let startsNonzero := ds.any (· != '0') && ds.head? != some '0'
  if sign.length > 1 then fail .intUnreadable
  else if startsNonzero && sign.length + ds.length > mostCharacters then fail .intTooLong
  else if ds.length = rest.length && (startsNonzero || ds.length = 1) then
    let n : Int := ((ds.foldl (fun n c => n * 10 + (c.toNat - 48)) 0 : Nat) : Int)
    .ok (if sign.isEmpty then n else -n)
  else fail .intUnreadable

/-- A number without the freedoms that people take in writing one: a plus sign, leading zeros,
underscores between digits and a fraction of zeros. -/
def cleaned? (cs : List Char) : Option (List Char) := do
  let ds ← withoutSignedZeros (← withoutPlus cs)
  return withoutUnderscores (withoutFraction ds)

/-- An integer written in decimal, with spaces around it and the freedoms that people take. -/
def intOfText (s : String) : Checked Int :=
  let cs := trimNumber s.toList
  match plainInt cs, cleaned? cs with
  | .ok i, _ => .ok i
  | .error _, some ds => plainInt ds
  | .error fault, none => .error fault

def int : Value → Checked Int
  | .int i => .ok i
  | .bool b => .ok (if b then 1 else 0)
  | .float x =>
    if !x.isFinite then fail .intInfinite
    else match x.toInt? with
      | some i => if isWithinWord i then .ok i else fail .intTooLong
      | none => fail .intFractional
  | .text s => intOfText s
  | .illFormed _ => fail .textUndecodable
  | .bytes bs =>
    match decode? bs with
    | some s => intOfText s
    | none => fail .intUnreadable
  | _ => fail .intExpected

/-! ## Readings with a bound -/

def atLeast (least : Int) (v : Value) : Checked Int := do
  let i ← int v
  if i < least then fail (.tooSmall least) else .ok i

def within (least greatest : Int) (v : Value) : Checked Int := do
  let i ← int v
  if i < least then fail (.tooSmall least)
  else if i > greatest then fail (.tooLarge greatest)
  else .ok i

def nonEmptyText (v : Value) : Checked String := do
  let s ← text v
  if s.isEmpty then fail (.textTooShort 1) else .ok s

def shortText (greatest : Nat) (v : Value) : Checked String := do
  let s ← nonEmptyText v
  if s.length > greatest then fail (.textTooLong greatest) else .ok s

def isIdentifierStart (c : Char) : Bool := c.isAlpha || c = '_'

def isIdentifierPart (c : Char) : Bool := c.isAlphanum || c = '_'

/-- An ASCII letter or underscore, then ASCII letters, digits and underscores. -/
def isIdentifier (s : String) : Bool :=
  match s.toList with
  | [] => false
  | c :: cs => isIdentifierStart c && cs.all isIdentifierPart

def identifier (v : Value) : Checked String := do
  let s ← text v
  if isIdentifier s then .ok s else fail .notIdentifier

/-- One of a closed set of labels.  Bytes that encode no text are no label. -/
def oneOf (labels : List String) (v : Value) : Checked String :=
  match v, text v with
  | _, .ok s => if labels.contains s then .ok s else fail (.notOneOf labels)
  | .illFormed _, .error fault => .error fault
  | _, .error _ => fail (.notOneOf labels)

/-- The items of a list, a tuple or a set, each read at its place. -/
def listOf {α : Type} (item : Value → Checked α) : Value → Checked (List α)
  | .list xs | .tuple xs | .set xs =>
    Checked.all (xs.mapIdx fun i x => Checked.under (.index i) (item x))
  | _ => fail .listExpected

/-- A key that is a text, or the text that a byte string encodes.  Any row of code points will
do. -/
def textKey : Value → Checked Value
  | .illFormed ps => .ok (.illFormed ps)
  | v => (text v).map .text

/-- A mapping from texts to any values, as its entries; an entry under a known key takes the place
of the one before. -/
def bag : Value → Checked (List (Value × Value))
  | .map es =>
    let entries := Checked.all (es.map fun e =>
      Checked.under (.ofKey e.1) (Checked.under (.name "[key]")
        ((textKey e.1).map fun key => (key, e.2))))
    entries.map fun es => es.foldl (fun bag e => Value.put e.1 e.2 bag) []
  | _ => fail .mappingExpected

end EntityGraph.Input
