import EntityGraph.Value

/-!
# The syntax of JSON

The documents of RFC 8259 as trees: every derivation of the grammar is one tree, with the blanks
between tokens, the spelling of every character of a string, and the form of every number.  A tree
has its text and the value that it denotes.

* `Number`, `Piece`: a number, and a character of a string, as they are spelled;
* `Tree`, `Items`, `Members`, `Document`: values, and a value between blanks;
* `Tree.chars`, `Document.text`: the text;
* `Senses`, `Tree.valueIn`: what a tree denotes, given what its strings and numbers denote;
* `Document.value`: the value that a document denotes as JSON;
* `Rules`, `Tree.obeys`: conditions on the parts of a tree.
-/

namespace EntityGraph.Json

/-! ## Blanks -/

/-- A blank between tokens. -/
inductive Blank where
  | space
  | tab
  | lineFeed
  | carriageReturn
deriving DecidableEq

def Blank.char : Blank → Char
  | space => ' '
  | tab => '\t'
  | lineFeed => '\n'
  | carriageReturn => '\r'

/-- The blanks between two tokens. -/
abbrev Gap := List Blank

def Gap.chars (g : Gap) : List Char := g.map Blank.char

/-! ## Numbers -/

abbrev Digit := Fin 10

def Digit.char (d : Digit) : Char := Char.ofNat (48 + d.val)

def numberOf (ds : List Digit) : Nat := ds.foldl (fun n d => n * 10 + d.val) 0

/-- Digits, of which there is one at least. -/
structure Row where
  first : Digit
  rest : List Digit

def Row.digits (r : Row) : List Digit := r.first :: r.rest

/-- The digits before the point: a zero, or digits that do not start with one. -/
inductive Whole where
  | zero
  | row (first : Fin 9) (rest : List Digit)

def Whole.digits : Whole → List Digit
  | zero => [0]
  | row first rest => first.succ :: rest

/-- An exponent; its sign, if it has one, is a minus if `minus` holds. -/
structure Exponent where
  upper : Bool
  minus : Option Bool
  row : Row

namespace Exponent

def signChars (e : Exponent) : List Char :=
  match e.minus with
  | none => []
  | some minus => [if minus then '-' else '+']

def chars (e : Exponent) : List Char :=
  (if e.upper then 'E' else 'e') :: e.signChars ++ e.row.digits.map Digit.char

def value (e : Exponent) : Int :=
  if e.minus = some true then -(numberOf e.row.digits : Int) else numberOf e.row.digits

end Exponent

/-- A number as it is spelled. -/
structure Number where
  negative : Bool
  whole : Whole
  fraction : Option Row
  exponent : Option Exponent

namespace Number

def signChars (n : Number) : List Char := if n.negative then ['-'] else []

def fractionChars (n : Number) : List Char :=
  match n.fraction with
  | none => []
  | some r => '.' :: r.digits.map Digit.char

def exponentChars (n : Number) : List Char := (n.exponent.map Exponent.chars).getD []

def chars (n : Number) : List Char :=
  n.signChars ++ n.whole.digits.map Digit.char ++ n.fractionChars ++ n.exponentChars

/-- The digits after the point. -/
def places (n : Number) : List Digit := (n.fraction.map Row.digits).getD []

/-- A number with neither a point nor an exponent. -/
def isWhole (n : Number) : Bool := n.fraction.isNone && n.exponent.isNone

def integer (n : Number) : Int :=
  if n.negative then -(numberOf n.whole.digits : Int) else numberOf n.whole.digits

/-- The float nearest to a number. -/
def float (n : Number) : Binary64 :=
  Binary64.ofDecimal n.negative (numberOf (n.whole.digits ++ n.places))
    ((n.exponent.map Exponent.value).getD 0 - (n.places.length : Int))

/-- What a number denotes: an integer, or a float if it has a point or an exponent. -/
def value (n : Number) : Value := if n.isWhole then .int n.integer else .float n.float

end Number

/-! ## Strings -/

/-- A character that may stand for itself in a string. -/
def isUnescaped (c : Char) : Bool := ' ' ≤ c && c ≠ '"' && c ≠ '\\'

/-- The escapes of one letter. -/
inductive Letter where
  | quote
  | backslash
  | slash
  | backspace
  | formFeed
  | lineFeed
  | carriageReturn
  | tab

namespace Letter

def spelling : Letter → Char
  | quote => '"'
  | backslash => '\\'
  | slash => '/'
  | backspace => 'b'
  | formFeed => 'f'
  | lineFeed => 'n'
  | carriageReturn => 'r'
  | tab => 't'

def meaning : Letter → Char
  | quote => '"'
  | backslash => '\\'
  | slash => '/'
  | backspace => '\x08'
  | formFeed => '\x0c'
  | lineFeed => '\n'
  | carriageReturn => '\r'
  | tab => '\t'

end Letter

/-- A hexadecimal digit; one above nine is spelled in a capital if `upper` holds. -/
structure HexDigit where
  number : Fin 16
  upper : Bool

def HexDigit.char (d : HexDigit) : Char :=
  if d.number < 10 then Char.ofNat (48 + d.number.val)
  else Char.ofNat ((if d.upper then 55 else 87) + d.number.val)

/-- A character of a string as it is spelled: by itself, by an escape of one letter, or by the
number of a code unit. -/
inductive Piece where
  | plain (c : Char) (h : isUnescaped c = true)
  | letter (l : Letter)
  | unit (a b c d : HexDigit)

namespace Piece

def chars : Piece → List Char
  | plain c _ => [c]
  | letter l => ['\\', l.spelling]
  | unit a b c d => ['\\', 'u', a.char, b.char, c.char, d.char]

/-- The code point of a piece on its own. -/
def point : Piece → Text.Point
  | plain c _ => .char c
  | letter l => .char l.meaning
  | unit a b c d =>
    .ofCode (((a.number.val * 16 + b.number.val) * 16 + c.number.val) * 16 + d.number.val)

end Piece

/-- Code points with the halves of pairs joined that follow one another. -/
def paired : List Text.Point → List Text.Point
  | [] => []
  | [p] => [p]
  | p :: q :: rest =>
    match p, q with
    | .half first, .half second =>
      if Text.isFirstHalf first && Text.isSecondHalf second then
        .char (Text.pairChar first second) :: paired rest
      else .half first :: paired (.half second :: rest)
    | p, q => p :: paired (q :: rest)

/-- The pieces between the quotes of a string. -/
abbrev Pieces := List Piece

namespace Pieces

def inner (ps : Pieces) : List Char := ps.flatMap Piece.chars

def chars (ps : Pieces) : List Char := '"' :: ps.inner ++ ['"']

/-- What a string denotes. -/
def value (ps : Pieces) : Value := .ofPoints (paired (ps.map Piece.point))

end Pieces

/-! ## Trees -/

/-- A key of an object with the blanks around it. -/
structure Key where
  before : Gap
  pieces : Pieces
  after : Gap

mutual

/-- A value as it is spelled. -/
inductive Tree where
  | null
  | bool (b : Bool)
  | number (n : Number)
  | string (ps : Pieces)
  | emptyArray (gap : Gap)
  | array (items : Items)
  | emptyObject (gap : Gap)
  | object (members : Members)

/-- Items of an array with the blanks around them. -/
inductive Items where
  | last (before : Gap) (item : Tree) (after : Gap)
  | cons (before : Gap) (item : Tree) (after : Gap) (rest : Items)

/-- Members of an object with the blanks around their keys and values. -/
inductive Members where
  | last (key : Key) (before : Gap) (item : Tree) (after : Gap)
  | cons (key : Key) (before : Gap) (item : Tree) (after : Gap) (rest : Members)

end

def Key.chars (k : Key) : List Char :=
  k.before.chars ++ (k.pieces.chars ++ (k.after.chars ++ [':']))

mutual

def Tree.chars : Tree → List Char
  | .null => "null".toList
  | .bool b => if b then "true".toList else "false".toList
  | .number n => n.chars
  | .string ps => ps.chars
  | .emptyArray gap => '[' :: (gap.chars ++ [']'])
  | .array items => '[' :: (items.chars ++ [']'])
  | .emptyObject gap => '\x7b' :: (gap.chars ++ ['\x7d'])
  | .object members => '\x7b' :: (members.chars ++ ['\x7d'])

def Items.chars : Items → List Char
  | .last before item after => before.chars ++ (item.chars ++ after.chars)
  | .cons before item after rest =>
    before.chars ++ (item.chars ++ (after.chars ++ ',' :: rest.chars))

def Members.chars : Members → List Char
  | .last key before item after => key.chars ++ (before.chars ++ (item.chars ++ after.chars))
  | .cons key before item after rest =>
    key.chars ++ (before.chars ++ (item.chars ++ (after.chars ++ ',' :: rest.chars)))

end

/-! ## Meanings -/

/-- What strings and numbers denote. -/
structure Senses where
  string : Pieces → Value
  number : Number → Value

/-- An object with members written in order; the last one of a name counts. -/
def objectOf (members : List (Value × Value)) : Value :=
  .map (members.foldl (fun es m => Value.put m.1 m.2 es) [])

mutual

/-- What a tree denotes. -/
def Tree.valueIn (s : Senses) : Tree → Value
  | .null => .null
  | .bool b => .bool b
  | .number n => s.number n
  | .string ps => s.string ps
  | .emptyArray _ => .list []
  | .array items => .list (items.valuesIn s)
  | .emptyObject _ => .map []
  | .object members => objectOf (members.valuesIn s)

def Items.valuesIn (s : Senses) : Items → List Value
  | .last _ item _ => [item.valueIn s]
  | .cons _ item _ rest => item.valueIn s :: rest.valuesIn s

def Members.valuesIn (s : Senses) : Members → List (Value × Value)
  | .last key _ item _ => [(s.string key.pieces, item.valueIn s)]
  | .cons key _ item _ rest => (s.string key.pieces, item.valueIn s) :: rest.valuesIn s

end

/-- What strings and numbers denote as JSON. -/
def senses : Senses := ⟨Pieces.value, Number.value⟩

/-! ## Conditions -/

/-- Conditions on the parts of a tree. -/
structure Rules where
  gap : Gap → Bool := fun _ => true
  key : Key → Bool := fun _ => true
  string : Pieces → Bool := fun _ => true
  number : Number → Bool := fun _ => true

def Key.obeys (r : Rules) (k : Key) : Bool :=
  r.gap k.before && r.string k.pieces && r.gap k.after && r.key k

mutual

/-- All parts of a tree satisfy the conditions. -/
def Tree.obeys (r : Rules) : Tree → Bool
  | .null => true
  | .bool _ => true
  | .number n => r.number n
  | .string ps => r.string ps
  | .emptyArray gap => r.gap gap
  | .array items => items.obey r
  | .emptyObject gap => r.gap gap
  | .object members => members.obey r

def Items.obey (r : Rules) : Items → Bool
  | .last before item after => r.gap before && item.obeys r && r.gap after
  | .cons before item after rest => r.gap before && item.obeys r && r.gap after && rest.obey r

def Members.obey (r : Rules) : Members → Bool
  | .last key before item after => key.obeys r && r.gap before && item.obeys r && r.gap after
  | .cons key before item after rest =>
    key.obeys r && r.gap before && item.obeys r && r.gap after && rest.obey r

end

section

variable {r : Rules} {key : Key} {before after : Gap} {item : Tree}
  (hGap : ∀ gap, r.gap gap = true)
include hGap

theorem Items.obey_last : (Items.last before item after).obey r = item.obeys r := by
  simp [Items.obey, hGap]

theorem Items.obey_cons {rest : Items} :
    (Items.cons before item after rest).obey r = (item.obeys r && rest.obey r) := by
  simp [Items.obey, hGap]

theorem Members.obey_last :
    (Members.last key before item after).obey r = (key.obeys r && item.obeys r) := by
  simp [Members.obey, hGap]

theorem Members.obey_cons {rest : Members} :
    (Members.cons key before item after rest).obey r =
      (key.obeys r && item.obeys r && rest.obey r) := by
  simp [Members.obey, hGap]

end

mutual

/-- Two ways to read strings and numbers that agree on all parts of a tree agree on the tree. -/
theorem Tree.valueIn_congr {s s' : Senses} {r : Rules}
    (hString : ∀ ps, r.string ps = true → s.string ps = s'.string ps)
    (hNumber : ∀ n, r.number n = true → s.number n = s'.number n) :
    ∀ t : Tree, t.obeys r = true → t.valueIn s = t.valueIn s'
  | .null, _ => rfl
  | .bool _, _ => rfl
  | .number n, h => hNumber n h
  | .string ps, h => hString ps h
  | .emptyArray _, _ => rfl
  | .array items, h => congrArg Value.list (items.valuesIn_congr hString hNumber h)
  | .emptyObject _, _ => rfl
  | .object members, h => congrArg objectOf (members.valuesIn_congr hString hNumber h)

theorem Items.valuesIn_congr {s s' : Senses} {r : Rules}
    (hString : ∀ ps, r.string ps = true → s.string ps = s'.string ps)
    (hNumber : ∀ n, r.number n = true → s.number n = s'.number n) :
    ∀ items : Items, items.obey r = true → items.valuesIn s = items.valuesIn s'
  | .last _ item _, h => by
    simp only [Items.obey, Bool.and_eq_true] at h
    simp only [Items.valuesIn, item.valueIn_congr hString hNumber h.1.2]
  | .cons _ item _ rest, h => by
    simp only [Items.obey, Bool.and_eq_true] at h
    simp only [Items.valuesIn, item.valueIn_congr hString hNumber h.1.1.2,
      rest.valuesIn_congr hString hNumber h.2]

theorem Members.valuesIn_congr {s s' : Senses} {r : Rules}
    (hString : ∀ ps, r.string ps = true → s.string ps = s'.string ps)
    (hNumber : ∀ n, r.number n = true → s.number n = s'.number n) :
    ∀ members : Members, members.obey r = true → members.valuesIn s = members.valuesIn s'
  | .last key _ item _, h => by
    simp only [Members.obey, Key.obeys, Bool.and_eq_true] at h
    simp only [Members.valuesIn, hString key.pieces h.1.1.1.1.1.2,
      item.valueIn_congr hString hNumber h.1.2]
  | .cons key _ item _ rest, h => by
    simp only [Members.obey, Key.obeys, Bool.and_eq_true] at h
    simp only [Members.valuesIn, hString key.pieces h.1.1.1.1.1.1.2,
      item.valueIn_congr hString hNumber h.1.1.2, rest.valuesIn_congr hString hNumber h.2]

end

/-! ## Documents -/

/-- A value between blanks. -/
structure Document where
  before : Gap
  tree : Tree
  after : Gap

namespace Document

def chars (d : Document) : List Char := d.before.chars ++ (d.tree.chars ++ d.after.chars)

def text (d : Document) : String := String.ofList d.chars

/-- The value that a document denotes. -/
def value (d : Document) : Value := d.tree.valueIn senses

def obeys (r : Rules) (d : Document) : Bool := r.gap d.before && d.tree.obeys r && r.gap d.after

end Document

end EntityGraph.Json
