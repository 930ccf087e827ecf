import EntityGraph.Markup.Token.Property

/-!
# Scalars

How the contents of a scalar are read in its three styles: quoted, plain, and as a block.  A line
break inside a quoted or plain scalar is folded: a single one becomes a blank, and of several all
but the first remain.

* `readQuoted`: a scalar between quotes;
* `readPlain`: a scalar without quotes;
* `readBlock`: a scalar in an indented block.
-/

namespace EntityGraph.Markup

def isGapChar (c : Char) : Bool := c = ' ' || c = '\t'

/-- Line breaks folded: the first of them counts as a blank unless others follow; a separator
stays. -/
def foldBreaks (first rest : List Char) : List Char :=
  if first ≠ ['\n'] then first ++ rest else if rest.isEmpty then [' '] else rest

/-! ## Quoted scalars -/

def quotedActivity : String := "while scanning a quoted scalar"

/-- What is being read in a scalar between double quotes. -/
def escapeActivity : String := "while scanning a double-quoted scalar"

/-- The character that an escape of one letter stands for. -/
def letterEscape? (c : Char) : Option Char :=
  match c with
  | '0' => some '\x00'
  | 'a' => some '\x07'
  | 'b' => some '\x08'
  | 't' => some '\t'
  | '\t' => some '\t'
  | 'n' => some '\n'
  | 'v' => some '\x0b'
  | 'f' => some '\x0c'
  | 'r' => some '\r'
  | 'e' => some '\x1b'
  | ' ' => some ' '
  | '"' => some '"'
  | '\\' => some '\\'
  | '/' => some '/'
  | 'N' => some '\u0085'
  | '_' => some '\u00a0'
  | 'L' => some '\u2028'
  | 'P' => some '\u2029'
  | _ => none

/-- The number of hexadecimal digits after an escape of a code point. -/
def codeLength? (c : Char) : Option Nat :=
  match c with
  | 'x' => some 2
  | 'u' => some 4
  | 'U' => some 8
  | _ => none

/-- The number of a code point after an escape, with the mark after it. -/
def readCode (since m : Mark) (length : Nat) : Except Failure (Nat × Mark) :=
  match nonHex? m length with
  | some c =>
    refuse escapeActivity since
      (butFound ("escape sequence of " ++ toString length ++ " hexadecimal numbers") c) m
  | none => .ok (hexValue (m.after.take length), m.skip length)

/-- The code point with a number.  Halves of pairs that follow one another are not joined. -/
def pointOfCode (code : Nat) : Except Failure Text.Point :=
  if code ≥ Nat.pow 2 31 then .error .numberTooLarge
  else if code > 0x10FFFF then .error (.unreadableScalar "chr() arg not in range(0x110000)")
  else .ok (.ofCode code)

def pointsOf (cs : List Char) : List Text.Point := cs.map .char

/-- Line breaks in a quoted scalar with the blanks between them; a document separator at the start
of a line is refused. -/
def quotedBreaks (since : Mark) : (fuel : Nat) → Mark → Except Failure (List Char × Mark)
  | 0, m => .ok ([], m)
  | fuel + 1, m => do
    if m.isSeparator then
      refuse quotedActivity since "found unexpected document separator" m
    let m := m.skipWhile isGapChar
    if m.peek.any isBreak then
      let (c, rest) := m.lineBreak
      let (cs, rest) ← quotedBreaks since fuel rest
      return (c ++ cs, rest)
    else return ([], m)

/-- Blanks or line breaks in a quoted scalar. -/
def quotedSpaces (since m : Mark) : Except Failure (List Char × Mark) := do
  let (blanks, m) := m.span isGapChar
  match m.peek with
  | none => refuse quotedActivity since "found unexpected end of stream" m
  | some c =>
    if isBreak c then
      let (first, m) := m.lineBreak
      let (rest, m) ← quotedBreaks since m.left m
      return (foldBreaks first rest, m)
    else return (blanks, m)

def readEscape (since m : Mark) : Except Failure (List Text.Point × Mark) := do
  match m.peek with
  | none => refuse escapeActivity since ("found unknown escape character " ++ shown none) m
  | some c =>
    match letterEscape? c, codeLength? c with
    | some d, _ => return ([.char d], m.next)
    | none, some length =>
      let (code, rest) ← readCode since m.next length
      return ([← pointOfCode code], rest)
    | none, none =>
      if isBreak c then
        let rest := m.lineBreak.2
        let (breaks, rest) ← quotedBreaks since rest.left rest
        return (pointsOf breaks, rest)
      else refuse escapeActivity since ("found unknown escape character " ++ shown (some c)) m

/-- Code points of a quoted scalar up to a blank, a line break or the closing quote. -/
def quotedWord (double : Bool) (since : Mark) :
    (fuel : Nat) → Mark → Except Failure (List Text.Point × Mark)
  | 0, m => .ok ([], m)
  | fuel + 1, m =>
    match m.peek with
    | none => .ok ([], m)
    | some c =>
      let take (ps : List Text.Point) (rest : Mark) : Except Failure (List Text.Point × Mark) :=
        (quotedWord double since fuel rest).map fun (more, stop) => (ps ++ more, stop)
      if isGapChar c || isBreak c then .ok ([], m)
      else if c = '\'' && !double then
        if m.peekAt 1 = some '\'' then take [.char '\''] (m.skip 2) else .ok ([], m)
      else if c = '"' && double then .ok ([], m)
      else if c = '\\' && double then do
        let (ps, rest) ← readEscape since m.next
        take ps rest
      else take [.char c] m.next

/-- The contents of a quoted scalar up to its closing quote. -/
def quotedContents (double : Bool) (since : Mark) :
    (fuel : Nat) → Mark → Except Failure (List Text.Point × Mark)
  | 0, m => .ok ([], m)
  | fuel + 1, m => do
    let (word, m) ← quotedWord double since m.left m
    if m.peek = some (if double then '"' else '\'') then return (word, m)
    let (gap, m) ← quotedSpaces since m
    let (more, m) ← quotedContents double since fuel m
    return (word ++ pointsOf gap ++ more, m)

def readQuoted (double : Bool) (m : Mark) : Except Failure (List Text.Point × Mark) := do
  let (ps, rest) ← quotedContents double m (m.left + 1) m.next
  return (ps, rest.next)

/-! ## Plain scalars -/

def isFlowChar (c : Char) : Bool := c = ',' || c = '[' || c = ']' || c = '{' || c = '}'

/-- A character that ends a word of a plain scalar, given the character after it. -/
def endsPlainWord (inFlow : Bool) (c : Char) (following : Option Char) : Bool :=
  endsWord (some c) ||
    (c = ':' && (endsWord following || (inFlow && following.any isFlowChar))) ||
    (inFlow && (c = '?' || isFlowChar c))

def plainWord (inFlow : Bool) : List Char → List Char
  | [] => []
  | c :: cs => if endsPlainWord inFlow c cs.head? then [] else c :: plainWord inFlow cs

/-- Line breaks in a plain scalar with the blanks between them; none if a document separator
follows one. -/
def plainBreaks : (fuel : Nat) → Mark → Option (List Char) × Mark
  | 0, m => (some [], m)
  | fuel + 1, m =>
    match m.peek with
    | none => (some [], m)
    | some c =>
      if c = ' ' then plainBreaks fuel m.next
      else if isBreak c then
        let (first, rest) := m.lineBreak
        if rest.isSeparator then (none, rest)
        else
          let (more, stop) := plainBreaks fuel rest
          (more.map (first ++ ·), stop)
      else (some [], m)

/-- What stands between two words of a plain scalar; nothing if the scalar ends here.  The last part
tells whether a line was ended. -/
def plainGap (m : Mark) : List Char × Mark × Bool :=
  let (blanks, m) := m.span isSpaceChar
  if m.peek.any isBreak then
    let (first, m) := m.lineBreak
    if m.isSeparator then ([], m, true)
    else
      match plainBreaks m.left m with
      | (none, m) => ([], m, true)
      | (some rest, m) => (foldBreaks first rest, m, true)
  else (blanks, m, false)

/-- A plain scalar that has been read: its contents, the mark after them, the mark after the blanks
that follow, and whether these end a line. -/
structure PlainScalar where
  contents : List Char
  stop : Mark
  rest : Mark
  endsWithLine : Bool

/-- Words of a plain scalar from a mark on.  `gap` stands before the next word, `stop` is the mark
after the last one, and `endsWithLine` tells whether the gap ends a line. -/
def plainWords (inFlow : Bool) (indent : Int) :
    (fuel : Nat) → (gap : List Char) → (stop m : Mark) → (endsWithLine : Bool) → PlainScalar
  | 0, _, stop, m, endsWithLine => ⟨[], stop, m, endsWithLine⟩
  | fuel + 1, gap, stop, m, endsWithLine =>
    let word := if m.peek = some '#' then [] else plainWord inFlow m.after
    if word.isEmpty then ⟨[], stop, m, endsWithLine⟩
    else
      let stop := m.skip word.length
      let (next, rest, ended) := plainGap stop
      if next.isEmpty || rest.peek = some '#' || (!inFlow && (rest.column : Int) < indent) then
        ⟨gap ++ word, stop, rest, ended⟩
      else
        let more := plainWords inFlow indent fuel next stop rest ended
        { more with contents := gap ++ word ++ more.contents }

/-- A plain scalar whose lines after the first are indented. -/
def readPlain (inFlow : Bool) (indent : Int) (m : Mark) : PlainScalar :=
  plainWords inFlow indent m.left [] m m false

/-! ## Block scalars -/

def blockActivity : String := "while scanning a block scalar"

/-- What becomes of the line breaks at the end of a block scalar. -/
inductive Chomping where
  | strip
  | clip
  | keep
deriving DecidableEq, Repr

def chomping? : Option Char → Option Chomping
  | some '+' => some .keep
  | some '-' => some .strip
  | _ => none

/-- The indentation that an indicator asks for, which must not be zero. -/
def blockIndent (since m : Mark) : Except Failure (Option Nat × Mark) := do
  match m.peek with
  | some c =>
    if c = '0' then
      refuse blockActivity since "expected indentation indicator in the range 1-9, but found 0" m
    if c.isDigit then return (some (c.toNat - 48), m.next)
    return (none, m)
  | none => return (none, m)

def blockIndicators (since m : Mark) : Except Failure (Chomping × Option Nat × Mark) := do
  let (chomping, increment, rest) ←
    match chomping? m.peek with
    | some chomping => do
      let (increment, rest) ← blockIndent since m.next
      pure (chomping, increment, rest)
    | none => do
      let (increment, rest) ← blockIndent since m
      match increment, chomping? rest.peek with
      | some _, some chomping => pure (chomping, increment, rest.next)
      | _, _ => pure (.clip, increment, rest)
  if !endsItem rest.peek then
    refuse blockActivity since (butFound "chomping or indentation indicators" rest.peek) rest
  return (chomping, increment, rest)

/-- Empty lines at the start of a block scalar, and the widest indentation among them and of the
first line. -/
def blockLead : (fuel : Nat) → (widest : Nat) → Mark → List Char × Nat × Mark
  | 0, widest, m => ([], widest, m)
  | fuel + 1, widest, m =>
    match m.peek with
    | none => ([], widest, m)
    | some c =>
      if c = ' ' then blockLead fuel (max widest m.next.column) m.next
      else if isBreak c then
        let (first, rest) := m.lineBreak
        let (more, widest, stop) := blockLead fuel widest rest
        (first ++ more, widest, stop)
      else ([], widest, m)

/-- A mark moved past blanks up to a column. -/
def skipIndent (indent : Nat) (m : Mark) : Mark :=
  m.skip ((m.after.takeWhile isSpaceChar).take (indent - m.column)).length

def blockBreaks (indent : Nat) : (fuel : Nat) → Mark → List Char × Mark
  | 0, m => ([], m)
  | fuel + 1, m =>
    let m := skipIndent indent m
    if m.peek.any isBreak then
      let (first, rest) := m.lineBreak
      let (more, stop) := blockBreaks indent fuel rest
      (first ++ more, stop)
    else ([], m)

def isBlockLine (indent : Nat) (m : Mark) : Bool := m.column = indent && m.peek.isSome

/-- How the break after a line and the empty lines that follow it join it to the next line.  A
folded scalar keeps the break only next to a line that starts with a blank. -/
def joinLines (folded : Bool) (isText nextIsText : Bool) (first breaks : List Char) : List Char :=
  if folded && first = ['\n'] && isText && nextIsText then
    (if breaks.isEmpty then [' '] else []) ++ breaks
  else first ++ breaks

/-- A line that starts with neither a blank nor a tab. -/
def startsWithText (m : Mark) : Bool := !m.peek.any isGapChar

/-- The lines of a block scalar, then the break after the last one, the empty lines that follow, and
the mark after these. -/
def blockLines (folded : Bool) (indent : Nat) :
    (fuel : Nat) → Mark → List Char × List Char × List Char × Mark
  | 0, m => ([], [], [], m)
  | fuel + 1, m =>
    let (line, stop) := m.span fun c => !isBreak c
    let (first, rest) := stop.lineBreak
    let (breaks, rest) := blockBreaks indent rest.left rest
    if isBlockLine indent rest then
      let (more, last) := blockLines folded indent fuel rest
      (line ++ joinLines folded (startsWithText m) (startsWithText rest) first breaks ++ more, last)
    else (line, first, breaks, rest)

/-- The line breaks that end a block scalar. -/
def blockEnding (chomping : Chomping) (first breaks : List Char) : List Char :=
  match chomping with
  | .strip => []
  | .clip => first
  | .keep => first ++ breaks

/-- A scalar in a block of lines indented more than `indent`. -/
def readBlock (folded : Bool) (indent : Int) (m : Mark) : Except Failure (List Char × Mark) := do
  let (chomping, increment, rest) ← blockIndicators m m.next
  let rest ← endLine blockActivity m rest
  let least := max 1 (indent + 1).toNat
  let (lead, column, rest) :=
    match increment with
    | none =>
      let (lead, widest, rest) := blockLead rest.left 0 rest
      (lead, max least widest, rest)
    | some n =>
      let column := least + n - 1
      let (lead, rest) := blockBreaks column rest.left rest
      (lead, column, rest)
  if isBlockLine column rest then
    let (lines, first, breaks, rest) := blockLines folded column rest.left rest
    return (lead ++ lines ++ blockEnding chomping first breaks, rest)
  else return (blockEnding chomping [] lead, rest)

end EntityGraph.Markup
