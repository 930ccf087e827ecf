import EntityGraph.Markup.Token.Property
import EntityGraph.Proofs.Handlers.Names
import EntityGraph.Proofs.Scanning

/-!
# Reading literals

How the language of the generated module reads an expression that is a literal: one of the three
constants, a decimal integer, a text between quotes, a list, or a map.  A text is read in two passes,
one that finds its closing quote and one that turns its escapes into code points, and an expression
in two more, one that splits it into tokens and one that keeps a stack of the brackets that are
open, of which there are no more than so many.  Other literals, and other spellings of these, are
not read: numbers with a point, an exponent or underscores, texts with letters before them or with
three quotes, escapes in octal or by name.

* `Token`, `read?`: the tokens, and the one at the start of a text;
* `State`, `State.step`: what is read of an expression, and what a token adds to it;
* `Value.ofLiteralWithin?`: the value of a literal with so many brackets open at once;
* `Value.ofLiteral?`: the value of a literal with as many as the language allows.
-/

namespace EntityGraph

namespace Literal

open Expression (isPlain isQuote isWordPart)
open Text (Point)

inductive Mark where
  | openSquare
  | closeSquare
  | openCurly
  | closeCurly
  | comma
  | colon
  | minus
deriving DecidableEq

def Mark.all : List Mark := [.openSquare, .closeSquare, .openCurly, .closeCurly, .comma, .colon,
  .minus]

def Mark.char : Mark → Char
  | openSquare => '['
  | closeSquare => ']'
  | openCurly => '\x7b'
  | closeCurly => '\x7d'
  | comma => ','
  | colon => ':'
  | minus => '-'

/-- A token.  A number has no sign, and a text is a row of code points. -/
inductive Token where
  | mark (m : Mark)
  | constant (v : Value)
  | number (n : Nat)
  | text (points : List Point)

/-! ## Texts -/

/-- The characters that a letter stands for after a backslash. -/
def letters : List (Char × Char) := [('\\', '\\'), ('\'', '\''), ('"', '"'), ('a', '\x07'),
  ('b', '\x08'), ('f', '\x0c'), ('n', '\n'), ('r', '\r'), ('t', '\t'), ('v', '\x0b')]

/-- The code point whose number so many hexadecimal digits are, after the letter before them. -/
def numbered? (width : Nat) (cs : List Char) : Option (List Point × Nat) :=
  let ds := cs.take width
  if ds.length = width && ds.all Markup.isHex && Markup.hexValue ds ≤ 0x10FFFF then
    some ([.ofCode (Markup.hexValue ds)], width + 1)
  else none

/-- The code point of an escape, after its backslash. -/
def escape? : List Char → Option (List Point × Nat)
  | [] => none
  | c :: cs =>
    if c = 'x' then numbered? 2 cs
    else if c = 'u' then numbered? 4 cs
    else if c = 'U' then numbered? 8 cs
    else (letters.lookup c).map fun d => ([.char d], 1)

/-- The code point at the start of what stands between quotes. -/
def point? : Scanning.Reader Point := fun c cs =>
  if c = '\\' then escape? cs else some ([.char c], 0)

/-- The characters up to the closing quote.  A character after a backslash closes nothing. -/
def body? (quote : Char) : List Char → Option (List Char)
  | [] => none
  | '\\' :: c :: cs => (body? quote cs).map ('\\' :: c :: ·)
  | c :: cs =>
    if c = quote then some []
    else if isPlain quote c then (body? quote cs).map (c :: ·) else none

/-- The text whose first quote is read. -/
def text? (quote : Char) (cs : List Char) : Option (List Token × Nat) := do
  let body ← body? quote cs
  let points ← Scanning.scan point? body
  -- Two quotes in a row are the empty text, but three are the start of a text of another kind.
  if body.isEmpty && (cs.drop 1).head? = some quote then none
  else some ([.text points], body.length + 1)

/-! ## Words and marks -/

/-- The number that a word is.  No zero stands before its other digits. -/
def number? (w : List Char) : Option Token :=
  if w.all Char.isDigit && w.length ≤ Value.mostDigits &&
      (w.head? ≠ some '0' || w.all (· = '0')) then
    some (.number (Nat.ofDigitChars 10 w 0))
  else none

def word? (w : List Char) : Option Token :=
  if w = ['N', 'o', 'n', 'e'] then some (.constant .null)
  else if w = ['T', 'r', 'u', 'e'] then some (.constant (.bool true))
  else if w = ['F', 'a', 'l', 's', 'e'] then some (.constant (.bool false))
  else number? w

/-- What stands at the start of a text: a blank, or a token. -/
def read? : Scanning.Reader Token := fun c cs =>
  if c = ' ' || c = '\t' then some ([], 0)
  else if isQuote c then text? c cs
  else if isWordPart c then
    let w := c :: cs.takeWhile isWordPart
    (word? w).map fun t => ([t], w.length - 1)
  else (Mark.all.find? fun m => m.char = c).map fun m => ([.mark m], 0)

/-! ## Brackets -/

/-- A bracket that is open, with what it holds so far, items with the last one first. -/
inductive Frame where
  | items (done : List Value)
  /-- A map before a key. -/
  | entries (done : List (Value × Value))
  /-- A map before the value of a key. -/
  | entry (done : List (Value × Value)) (key : Value)

/-- How far an expression is read, with the innermost open bracket first. -/
inductive State where
  /-- A value comes next, or the end of what the innermost bracket holds. -/
  | before (opened : List Frame)
  /-- A number comes next, after a minus sign. -/
  | negated (opened : List Frame)
  /-- A value ends here. -/
  | after (v : Value) (opened : List Frame)

namespace State

def start : State := before []

/-- What a token adds, if no more than so many brackets are open at once; nothing may come after a
whole expression. -/
def step (levels : Nat) : State → Token → Option State
  | before opened, .constant v => some (after v opened)
  | before opened, .number n => some (after (.int n) opened)
  | before opened, .text ps => some (after (.ofPoints ps) opened)
  | before opened, .mark .minus => some (negated opened)
  | before opened, .mark .openSquare =>
    if opened.length < levels then some (before (.items [] :: opened)) else none
  | before opened, .mark .openCurly =>
    if opened.length < levels then some (before (.entries [] :: opened)) else none
  | before (.items done :: opened), .mark .closeSquare => some (after (.list done.reverse) opened)
  | before (.entries done :: opened), .mark .closeCurly => some (after (.map done) opened)
  | negated opened, .number n => some (after (.int (-n)) opened)
  | after v (.items done :: opened), .mark .comma => some (before (.items (v :: done) :: opened))
  | after v (.items done :: opened), .mark .closeSquare =>
    some (after (.list (v :: done).reverse) opened)
  | after k (.entries done :: opened), .mark .colon =>
    if k.isKey then some (before (.entry done k :: opened)) else none
  | after v (.entry done k :: opened), .mark .comma =>
    some (before (.entries (Value.put k v done) :: opened))
  | after v (.entry done k :: opened), .mark .closeCurly =>
    some (after (.map (Value.put k v done)) opened)
  | _, _ => none

/-- The state after more tokens, if all of them fit. -/
def run (levels : Nat) (s : State) (ts : List Token) : Option State := ts.foldlM (step levels) s

/-- The value of a whole expression. -/
def value? : State → Option Value
  | after v [] => some v
  | _ => none

end State

end Literal

end EntityGraph
