import EntityGraph.Failure

/-!
# Marks and problems

A mark is a place in a text: what stands before it, what follows, and its line and column.  Reading
a text is moving a mark through it.  A problem says what is wrong at a mark, and may say what was
being read and where that started.

* `Mark.next`: a mark moved past one character;
* `Mark.snippet`: the line around a mark with a caret under it;
* `Problem.text`, `refuse`: a problem as text and as a failure.
-/

namespace EntityGraph.Markup

def isBreak (c : Char) : Bool :=
  c = '\n' || c = '\r' || c = '\u0085' || c = '\u2028' || c = '\u2029'

/-- The end of a line or of the text. -/
def endsLine : Option Char → Bool
  | none => true
  | some c => isBreak c

/-- A blank, or the end of a line or of the text. -/
def endsItem (c : Option Char) : Bool := c = some ' ' || endsLine c

/-- A blank or a tab, or the end of a line or of the text. -/
def endsWord (c : Option Char) : Bool := c = some '\t' || endsItem c

/-- A place in a text.  `before` is in reverse order, and `left` counts the characters of
`after`. -/
structure Mark where
  index : Nat
  line : Nat
  column : Nat
  before : List Char
  after : List Char
  left : Nat
deriving Repr, Inhabited

namespace Mark

def start (cs : List Char) : Mark := ⟨0, 0, 0, [], cs, cs.length⟩

def peek (m : Mark) : Option Char := m.after.head?

def peekAt (m : Mark) (n : Nat) : Option Char := m.after[n]?

/-- A character that starts a new line after it; a line feed belongs to the carriage return before
it. -/
def startsLine (c : Char) (following : Option Char) : Bool :=
  isBreak c && !(c = '\r' && following = some '\n')

/-- A mark moved past one character.  A byte order mark takes no column. -/
def next (m : Mark) : Mark :=
  match m.after with
  | [] => m
  | c :: rest =>
    let newLine := startsLine c rest.head?
    { index := m.index + 1
      line := if newLine then m.line + 1 else m.line
      column := if newLine then 0 else if c = '\uFEFF' then m.column else m.column + 1
      before := c :: m.before
      after := rest
      left := m.left - 1 }

def skip (m : Mark) : Nat → Mark
  | 0 => m
  | n + 1 => m.next.skip n

/-- The characters that follow a mark as long as they satisfy a test, with the mark after them. -/
def span (p : Char → Bool) (m : Mark) : List Char × Mark :=
  let cs := m.after.takeWhile p
  (cs, m.skip cs.length)

/-- A mark moved past the characters that satisfy a test. -/
def skipWhile (p : Char → Bool) (m : Mark) : Mark := (m.span p).2

/-- A mark moved past a line break, with the break as contents have it: every break is a line feed
but for the two separators. -/
def lineBreak (m : Mark) : List Char × Mark :=
  match m.after with
  | '\r' :: '\n' :: _ => (['\n'], m.skip 2)
  | c :: _ =>
    if c = '\u2028' || c = '\u2029' then ([c], m.next)
    else if isBreak c then (['\n'], m.next)
    else ([], m)
  | [] => ([], m)

/-- Three hyphens or three points that stand as a word. -/
def isSeparator (m : Mark) : Bool :=
  match m.after with
  | '-' :: '-' :: '-' :: rest => endsWord rest.head?
  | '.' :: '.' :: '.' :: rest => endsWord rest.head?
  | _ => false

/-- The most characters of a line that are shown on either side of a mark. -/
def shownColumns : Nat := 36

/-- The characters that are left on a side where some are left out. -/
def keptColumns : Nat := 32

/-- One side of a mark, nearest character first, and whether some of it is left out. -/
def side (cs : List Char) : List Char × Bool :=
  let line := cs.takeWhile fun c => !isBreak c
  if line.length > shownColumns then (line.take keptColumns, true) else (line, false)

/-- The line around a mark, with a caret under it. -/
def snippet (m : Mark) : String :=
  let (left, leftCut) := side m.before
  let (right, rightCut) := side m.after
  let head := if leftCut then " ... " else ""
  let tail := if rightCut then " ... " else ""
  "    " ++ head ++ String.ofList left.reverse ++ String.ofList right ++ tail ++ "\n" ++
    String.ofList (List.replicate (4 + left.length + head.length) ' ') ++ "^"

/-- The name of a text that has no name of its own. -/
def sourceName : String := "<unicode string>"

def describe (m : Mark) : String :=
  "  in \"" ++ sourceName ++ "\", line " ++ toString (m.line + 1) ++ ", column " ++
    toString (m.column + 1) ++ ":\n" ++ m.snippet

def samePlace (a b : Mark) : Bool := a.line == b.line && a.column == b.column

end Mark

/-- What is wrong with a text. -/
structure Problem where
  /-- What was being read. -/
  activity : Option String := none
  /-- Where that started. -/
  since : Option Mark := none
  message : String
  mark : Mark

namespace Problem

/-- A problem as text.  The start of what was being read is shown unless it is where the problem
is. -/
def text (p : Problem) : String :=
  "\n".intercalate
    (p.activity.toList ++
      ((p.since.filter fun m => !m.samePlace p.mark).map Mark.describe).toList ++
      [p.message, p.mark.describe])

end Problem

/-- A text refused for a reason. -/
def refuseText {α : Type} (reason : String) : Except Failure α :=
  .error (.invalidDefinitions [⟨[], .unreadableText reason⟩])

/-- A text refused for a problem at a mark. -/
def refuseAt {α : Type} (mark : Mark) (message : String) : Except Failure α :=
  refuseText (Problem.text { message, mark })

/-- A text refused for a problem at a mark in something that was being read. -/
def refuse {α : Type} (activity : String) (since : Mark) (message : String) (mark : Mark) :
    Except Failure α :=
  refuseText (Problem.text { activity := some activity, since := some since, message, mark })

/-- The failure of reading a number in base ten that has too many digits. -/
def tooManyDigits (count : Nat) : Failure :=
  .unreadableScalar ("Exceeds the limit (" ++ toString Value.mostDigits ++
    " digits) for integer string conversion: value has " ++ toString count ++
    " digits; use sys.set_int_max_str_digits() to increase the limit")

/-- A character as problems show it; the end of the text is shown as the null character. -/
def shown (c : Option Char) : String := Literal.quoted (String.singleton (c.getD '\x00'))

/-- A message that one thing was expected and another was found. -/
def butFound (expected : String) (c : Option Char) : String :=
  "expected " ++ expected ++ ", but found " ++ shown c

end EntityGraph.Markup
