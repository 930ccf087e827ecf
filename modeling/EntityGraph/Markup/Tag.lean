import EntityGraph.Markup.Timestamp

/-!
# Tags

The tag of a node says what its content stands for.  A plain scalar without a tag has the one that
its text implies.

* `Tag.text`, `Tag.ofText`: a tag and its URI;
* `Tag.ofPlain`: the tag that a text implies.
-/

namespace EntityGraph.Markup

/-- The tag of a node. -/
inductive Tag where
  | null
  | bool
  | int
  | float
  | binary
  | timestamp
  | str
  | seq
  | map
  | set
  | omap
  | pairs
  | merge
  | value
  | other (uri : String)
deriving DecidableEq, Repr, Inhabited

namespace Tag

/-- What the URIs of the standard tags start with. -/
def standard : String := "tag:yaml.org,2002:"

def names : List (String × Tag) := [
  ("null", null), ("bool", bool), ("int", int), ("float", float), ("binary", binary),
  ("timestamp", timestamp), ("str", str), ("seq", seq), ("map", map), ("set", set),
  ("omap", omap), ("pairs", pairs), ("merge", merge), ("value", value)]

def text : Tag → String
  | other uri => uri
  | tag => standard ++ ((names.find? fun n => n.2 = tag).map (·.1)).getD ""

def ofText (uri : String) : Tag :=
  ((names.find? fun n => standard ++ n.1 == uri).map (·.2)).getD (other uri)

/-! ## Implied tags -/

def boolWords : List (List Char) :=
  ["yes", "Yes", "YES", "no", "No", "NO", "true", "True", "TRUE", "false", "False", "FALSE", "on",
    "On", "ON", "off", "Off", "OFF"].map String.toList

def nullWords : List (List Char) := ["~", "null", "Null", "NULL"].map String.toList

/-- A digit or an underscore. -/
def isSpacedDigit (c : Char) : Bool := c.isDigit || c = '_'

def unsigned : List Char → List Char
  | c :: rest => if c = '+' || c = '-' then rest else c :: rest
  | [] => []

/-- Digits, the first of them no underscore. -/
def isDigits : List Char → Bool
  | c :: rest => c.isDigit && rest.all isSpacedDigit
  | [] => false

/-- A text that is not empty and has only characters of one kind. -/
def isRow (p : Char → Bool) (cs : List Char) : Bool := !cs.isEmpty && cs.all p

/-- A row divided at each colon; `current` holds the part being read in reverse. -/
def atColons {α : Type} [BEq α] (colon : α) (current : List α) : List α → List (List α)
  | [] => [current.reverse]
  | c :: cs =>
    if c == colon then current.reverse :: atColons colon [] cs else atColons colon (c :: current) cs

/-- A number below sixty, of one digit or two. -/
def isSixtieth : List Char → Bool
  | [a] => a.isDigit
  | [a, b] => '0' ≤ a && a ≤ '5' && b.isDigit
  | _ => false

/-- A number in base sixty whose first place satisfies a test. -/
def isSexagesimal (first : List Char → Bool) (cs : List Char) : Bool :=
  match atColons ':' [] cs with
  | head :: place :: rest => first head && (place :: rest).all isSixtieth
  | _ => false

/-- Nothing, or an exponent with a sign. -/
def isExponent : List Char → Bool
  | [] => true
  | e :: sign :: ds =>
    (e = 'e' || e = 'E') && (sign = '+' || sign = '-') && isRow Char.isDigit ds
  | _ => false

/-- The places after a point, with an exponent perhaps. -/
def isFraction (cs : List Char) : Bool := isExponent (cs.dropWhile isSpacedDigit)

def isPointed (cs : List Char) : Bool :=
  let whole := cs.takeWhile (· != '.')
  match cs.drop whole.length with
  | [] => false
  | _ :: rest =>
    (isDigits whole && isFraction rest) ||
      (isSexagesimal isDigits whole && rest.all isSpacedDigit)

def isFloat (cs : List Char) : Bool :=
  let body := unsigned cs
  match body with
  | '.' :: rest =>
    [".inf", ".Inf", ".INF"].any (fun w => w.toList = body) ||
      [".nan", ".NaN", ".NAN"].any (fun w => w.toList = cs) ||
      (body = cs && rest.head?.any Char.isDigit && isFraction rest)
  | _ => isPointed body

/-- A digit of a number in base two, eight or sixteen, or an underscore. -/
def isBaseDigit (base : Nat) (c : Char) : Bool :=
  c = '_' ||
    match base with
    | 2 => c = '0' || c = '1'
    | 8 => '0' ≤ c && c ≤ '7'
    | _ => c.isDigit || ('a' ≤ c && c ≤ 'f') || ('A' ≤ c && c ≤ 'F')

/-- Digits, the first of them not a zero. -/
def startsNonzero (cs : List Char) : Bool := isDigits cs && cs.head? ≠ some '0'

def isInt (cs : List Char) : Bool :=
  let body := unsigned cs
  match body with
  | ['0'] => true
  | '0' :: 'b' :: rest => isRow (isBaseDigit 2) rest
  | '0' :: 'x' :: rest => isRow (isBaseDigit 16) rest
  | '0' :: rest => isRow (isBaseDigit 8) rest
  | _ => startsNonzero body || isSexagesimal startsNonzero body

/-- The tag that a text implies, if it implies any but that of a text. -/
def implied? (cs : List Char) : Option Tag :=
  if boolWords.contains cs then some bool
  else if isFloat cs then some float
  else if isInt cs then some int
  else if cs = ['<', '<'] then some merge
  else if nullWords.contains cs then some null
  else if Timestamp.isImplicit cs then some timestamp
  else if cs = ['='] then some value
  else if cs.length = 1 && cs.all (fun c => "!&*".toList.contains c) then
    some (other (standard ++ "yaml"))
  else none

def withoutFeed (cs : List Char) : List Char :=
  if cs.length > 1 && cs.getLast? = some '\n' then cs.dropLast else cs

/-- The tag that a text implies.  A line feed at its end makes no difference. -/
def ofPlain (cs : List Char) : Tag :=
  if cs.isEmpty then null else (implied? (withoutFeed cs)).getD str

end Tag

end EntityGraph.Markup
