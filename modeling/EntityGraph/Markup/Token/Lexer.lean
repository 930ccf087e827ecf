import EntityGraph.Markup.Token.Scalar

/-!
# Reading tokens

The tokens of a text in order.  Block collections are opened and closed by indentation, and whatever
stands before a colon becomes a key only when the colon is met; a token that may still turn out to
start a key waits in a queue until that is settled.

* `Lexer`: a text that has been read up to a mark, with the tokens that wait;
* `Lexer.fetch`: one more token read;
* `TokenStream`: the tokens up to the end of the text or to the first problem;
* `Lexer.stream`: the tokens of a text.
-/

namespace EntityGraph.Markup

/-- A token that may turn out to start a key: its place among all tokens, and its mark.  A required
one stands where a block mapping needs a key. -/
structure KeyCandidate where
  place : Nat
  required : Bool
  mark : Mark

/-- A text in reading.  `indents` are the columns of the open block collections, innermost first,
and `candidates` holds at most one candidate for each level of flow collections. -/
structure Lexer where
  mark : Mark
  flowLevel : Nat := 0
  indent : Int := -1
  indents : List Int := []
  keyAllowed : Bool := true
  candidates : List (Nat × KeyCandidate) := []
  queue : List Token := []
  taken : Nat := 0
  done : Bool := false

namespace Lexer

def inFlow (l : Lexer) : Bool := l.flowLevel > 0

def nextPlace (l : Lexer) : Nat := l.taken + l.queue.length

def push (l : Lexer) (symbol : Symbol) (start stop : Mark) : Lexer :=
  { l with queue := l.queue ++ [⟨symbol, start, stop⟩] }

/-- A token of no width where the reading stands. -/
def pushHere (l : Lexer) (symbol : Symbol) : Lexer := l.push symbol l.mark l.mark

def insertAt (l : Lexer) (place : Nat) (symbol : Symbol) (mark : Mark) : Lexer :=
  let n := place - l.taken
  { l with queue := l.queue.take n ++ ⟨symbol, mark, mark⟩ :: l.queue.drop n }

/-- A token of some characters, with the reading after them. -/
def pushNext (l : Lexer) (symbol : Symbol) (width : Nat) : Lexer :=
  let stop := l.mark.skip width
  { l.push symbol l.mark stop with mark := stop }

/-! ## Candidates for keys -/

def candidate? (l : Lexer) : Option KeyCandidate :=
  (l.candidates.find? fun c => c.1 == l.flowLevel).map (·.2)

def dropCandidate (l : Lexer) : Lexer :=
  { l with candidates := l.candidates.filter fun c => c.1 != l.flowLevel }

/-- A required candidate whose colon has not come. -/
def refuseCandidate {α : Type} (c : KeyCandidate) (m : Mark) : Except Failure α :=
  refuse "while scanning a simple key" c.mark "could not find expected ':'" m

def giveUpCandidate (l : Lexer) : Except Failure Lexer :=
  match l.candidate? with
  | some c => if c.required then refuseCandidate c l.mark else .ok l.dropCandidate
  | none => .ok l

/-- The greatest distance between the start of a key and its colon. -/
def keyReach : Nat := 1024

/-- A candidate that is too far away, or on an earlier line. -/
def isStale (l : Lexer) (c : KeyCandidate) : Bool :=
  c.mark.line != l.mark.line || l.mark.index - c.mark.index > keyReach

/-- Candidates without the stale ones, of which none may be required. -/
def freshCandidates (l : Lexer) :
    List (Nat × KeyCandidate) → Except Failure (List (Nat × KeyCandidate))
  | [] => .ok []
  | (level, c) :: rest =>
    if l.isStale c then
      if c.required then refuseCandidate c l.mark else freshCandidates l rest
    else (freshCandidates l rest).map ((level, c) :: ·)

def dropStale (l : Lexer) : Except Failure Lexer :=
  (l.freshCandidates l.candidates).map fun candidates => { l with candidates }

/-- The next token as a candidate, where a key is allowed. -/
def saveCandidate (l : Lexer) : Except Failure Lexer := do
  if !l.keyAllowed then return l
  let l ← l.giveUpCandidate
  let required := !l.inFlow && l.indent == l.mark.column
  let c : KeyCandidate := ⟨l.nextPlace, required, l.mark⟩
  return { l with candidates := l.candidates ++ [(l.flowLevel, c)] }

/-! ## Indentation -/

/-- Block collections closed whose column is to the right of the given one. -/
def unwind (column : Int) : (indents : List Int) → Lexer → Lexer
  | [], l => l
  | outer :: rest, l =>
    if !l.inFlow && l.indent > column then
      unwind column rest { l.pushHere .blockEnd with indent := outer, indents := rest }
    else l

/-- Block collections closed down to a column. -/
def unwindTo (l : Lexer) (column : Int) : Lexer := unwind column l.indents l

/-- A block collection opened at a column, if it is to the right of the present one. -/
def indentTo? (l : Lexer) (column : Nat) : Option Lexer :=
  if l.indent < column then
    some { l with indents := l.indent :: l.indents, indent := column }
  else none

/-- A block collection opened where the reading stands, if it is indented enough. -/
def openBlock (l : Lexer) (symbol : Symbol) : Lexer :=
  match l.indentTo? l.mark.column with
  | some l => l.pushHere symbol
  | none => l

/-! ## Tokens one by one -/

/-- Blanks, comments and line breaks passed over.  In block context a new line may start with a
key. -/
def skipGaps : (fuel : Nat) → Lexer → Lexer
  | 0, l => l
  | fuel + 1, l =>
    let m := skipComment l.mark
    if m.peek.any isBreak then
      skipGaps fuel { l with mark := m.lineBreak.2, keyAllowed := l.keyAllowed || !l.inFlow }
    else { l with mark := m }

def toNextToken (l : Lexer) : Lexer :=
  let m := if l.mark.index = 0 && l.mark.peek = some '\uFEFF' then l.mark.next else l.mark
  skipGaps (m.left + 1) { l with mark := m }

def fetchEnd (l : Lexer) : Except Failure Lexer := do
  let l ← (l.unwindTo (-1)).giveUpCandidate
  return { l.pushHere .streamEnd with keyAllowed := false, candidates := [], done := true }

def fetchDirective (l : Lexer) : Except Failure Lexer := do
  let l ← (l.unwindTo (-1)).giveUpCandidate
  let (directive, stop, rest) ← readDirective l.mark
  return { l.push (.directive directive) l.mark stop with keyAllowed := false, mark := rest }

def fetchSeparator (l : Lexer) (symbol : Symbol) : Except Failure Lexer := do
  let l ← (l.unwindTo (-1)).giveUpCandidate
  return { l.pushNext symbol 3 with keyAllowed := false }

def fetchOpening (l : Lexer) (symbol : Symbol) : Except Failure Lexer := do
  let l ← l.saveCandidate
  return { l.pushNext symbol 1 with flowLevel := l.flowLevel + 1, keyAllowed := true }

def fetchClosing (l : Lexer) (symbol : Symbol) : Except Failure Lexer := do
  let l ← l.giveUpCandidate
  return { l.pushNext symbol 1 with flowLevel := l.flowLevel - 1, keyAllowed := false }

def fetchComma (l : Lexer) : Except Failure Lexer := do
  let l ← l.giveUpCandidate
  return { l.pushNext .comma 1 with keyAllowed := true }

def fetchEntry (l : Lexer) : Except Failure Lexer := do
  if !l.inFlow && !l.keyAllowed then
    refuseAt l.mark "sequence entries are not allowed here"
  let l ← (if l.inFlow then l else l.openBlock .blockSequence).giveUpCandidate
  return { l.pushNext .entry 1 with keyAllowed := true }

def fetchKey (l : Lexer) : Except Failure Lexer := do
  if !l.inFlow && !l.keyAllowed then
    refuseAt l.mark "mapping keys are not allowed here"
  let l ← (if l.inFlow then l else l.openBlock .blockMapping).giveUpCandidate
  return { l.pushNext .key 1 with keyAllowed := !l.inFlow }

/-- The colon after a candidate, which so becomes a key. -/
def settleCandidate (l : Lexer) (c : KeyCandidate) : Lexer :=
  let l := l.dropCandidate.insertAt c.place .key c.mark
  let l := if l.inFlow then l
    else match l.indentTo? c.mark.column with
      | some l => l.insertAt c.place .blockMapping c.mark
      | none => l
  { l with keyAllowed := false }

def fetchValue (l : Lexer) : Except Failure Lexer := do
  match l.candidate? with
  | some c => return (l.settleCandidate c).pushNext .value 1
  | none =>
    if !l.inFlow && !l.keyAllowed then
      refuseAt l.mark "mapping values are not allowed here"
    let l ← (if l.inFlow then l else l.openBlock .blockMapping).giveUpCandidate
    return { l.pushNext .value 1 with keyAllowed := !l.inFlow }

/-- A token that may start a key and after which none may start. -/
def fetchContent (l : Lexer) (read : Mark → Except Failure (Symbol × Mark)) :
    Except Failure Lexer := do
  let l ← l.saveCandidate
  let (symbol, rest) ← read l.mark
  return { l.push symbol l.mark rest with keyAllowed := false, mark := rest }

/-- A plain scalar.  A key may start after it if it ends with its line. -/
def fetchPlain (l : Lexer) : Except Failure Lexer := do
  let l ← l.saveCandidate
  let s := readPlain l.inFlow (l.indent + 1) l.mark
  return { l.push (.scalar (pointsOf s.contents) true) l.mark s.stop with
    keyAllowed := s.endsWithLine, mark := s.rest }

def fetchBlock (l : Lexer) (folded : Bool) : Except Failure Lexer := do
  let l ← l.giveUpCandidate
  let (cs, rest) ← readBlock folded l.indent l.mark
  return { l.push (.scalar (pointsOf cs) false) l.mark rest with keyAllowed := true, mark := rest }

def quotedSymbol (double : Bool) (m : Mark) : Except Failure (Symbol × Mark) :=
  (readQuoted double m).map fun (points, rest) => (.scalar points false, rest)

def nameSymbol (isAlias : Bool) (m : Mark) : Except Failure (Symbol × Mark) :=
  (readName isAlias m).map fun (name, rest) =>
    (if isAlias then .reference name else .anchor name, rest)

def indicators : List Char := "-?:,[]\x7b\x7d#&*!|>'\"%@`".toList

def startsPlain (inFlow : Bool) (m : Mark) : Bool :=
  match m.peek with
  | none => false
  | some c =>
    !(endsWord (some c) || indicators.contains c) ||
      (!endsWord (m.peekAt 1) && (c = '-' || (!inFlow && (c = '?' || c = ':'))))

/-- The token that starts where the reading stands. -/
def fetchAt (l : Lexer) (c : Char) : Except Failure Lexer :=
  let m := l.mark
  let isWord := endsWord (m.peekAt 1)
  let atStart := m.column = 0
  if c = '%' && atStart then l.fetchDirective
  else if c = '-' && atStart && m.isSeparator then l.fetchSeparator .documentStart
  else if c = '.' && atStart && m.isSeparator then l.fetchSeparator .documentEnd
  else if c = '[' then l.fetchOpening .openSequence
  else if c = '{' then l.fetchOpening .openMapping
  else if c = ']' then l.fetchClosing .closeSequence
  else if c = '}' then l.fetchClosing .closeMapping
  else if c = ',' then l.fetchComma
  else if c = '-' && isWord then l.fetchEntry
  else if c = '?' && (l.inFlow || isWord) then l.fetchKey
  else if c = ':' && (l.inFlow || isWord) then l.fetchValue
  else if c = '*' then l.fetchContent (nameSymbol true)
  else if c = '&' then l.fetchContent (nameSymbol false)
  else if c = '!' then l.fetchContent readTag
  else if c = '|' && !l.inFlow then l.fetchBlock false
  else if c = '>' && !l.inFlow then l.fetchBlock true
  else if c = '\'' then l.fetchContent (quotedSymbol false)
  else if c = '"' then l.fetchContent (quotedSymbol true)
  else if startsPlain l.inFlow m then l.fetchPlain
  else
    refuseText (Problem.text {
      activity := some "while scanning for the next token"
      message := "found character " ++ shown (some c) ++ " that cannot start any token"
      mark := m })

/-- One more token, or several if block collections end before it. -/
def fetch (l : Lexer) : Except Failure Lexer := do
  let l ← l.toNextToken.dropStale
  let l := l.unwindTo l.mark.column
  match l.mark.peek with
  | none => l.fetchEnd
  | some c => l.fetchAt c

/-! ## The stream -/

/-- A candidate is the first token of the queue. -/
def isWaiting (l : Lexer) : Bool := l.candidates.any fun c => c.2.place == l.taken

/-- Tokens read until the first one of the queue is settled. -/
def fill : (fuel : Nat) → Lexer → Except Failure Lexer
  | 0, l => .ok l
  | fuel + 1, l =>
    if l.done then .ok l
    else if l.queue.isEmpty then do fill fuel (← l.fetch)
    else do
      let l ← l.dropStale
      if l.isWaiting then fill fuel (← l.fetch) else return l

end Lexer

/-- The tokens of a text up to its end or to the first problem. -/
inductive TokenStream where
  | fail (failure : Failure)
  | finish (last : Token)
  | cons (token : Token) (rest : TokenStream)

namespace TokenStream

def head : TokenStream → Except Failure Token
  | fail failure => .error failure
  | finish last => .ok last
  | cons token _ => .ok token

/-- The tokens after the first; the last one stays. -/
def tail : TokenStream → TokenStream
  | cons _ rest => rest
  | s => s

end TokenStream

namespace Lexer

def streamFrom : (fuel : Nat) → Lexer → TokenStream
  | 0, l => .finish ⟨.streamEnd, l.mark, l.mark⟩
  | fuel + 1, l =>
    match fill (l.mark.left + 2) l with
    | .error failure => .fail failure
    | .ok l =>
      match l.queue with
      | [] => .finish ⟨.streamEnd, l.mark, l.mark⟩
      | token :: rest =>
        if token.symbol matches .streamEnd then .finish token
        else .cons token (streamFrom fuel { l with queue := rest, taken := l.taken + 1 })

/-- A bound on the number of tokens: each character gives rise to four of them at most. -/
def tokenBound (text : List Char) : Nat := 4 * text.length + 8

def stream (text : List Char) : TokenStream :=
  streamFrom (tokenBound text) { mark := Mark.start text }

end Lexer

end EntityGraph.Markup
