import EntityGraph.Handlers.Source
import EntityGraph.Text.Width

/-!
# Line layout of statements

How a call that is too long for one line is broken.  A statement is a row of leaves with brackets
and commas.  A row that does not fit is split at its last bracket pair into a head that ends with
the opening bracket, a body one step further in, and a tail that starts with the closing bracket;
the pair before it is tried where the head would not fit.  A body that does not fit is divided after
its commas and then has a comma at its end; one that ends with a comma already is always divided,
and so is a literal of several items whose brackets are split.

* `Leaf`, `Row`: the leaves of a statement and a row of them;
* `Row.splitAt`, `Row.divide`: the two ways to break a row;
* `Row.layOut`: the rows of a statement.
-/

namespace EntityGraph.Handlers

/-- What a leaf does for the layout. -/
inductive Role where
  | plain
  | comma
  /-- An opening bracket; that of a literal divides its items eagerly. -/
  | opening (literal : Bool)
  | closing
deriving DecidableEq, Repr, Inhabited

/-- A leaf of a statement; `spaced` asks for a blank before it unless it starts a row. -/
structure Leaf where
  text : String
  role : Role
  spaced : Bool
deriving DecidableEq, Repr, Inhabited

namespace Leaf

def plain (text : String) : Leaf := ⟨text, .plain, false⟩

def comma : Leaf := ⟨",", .comma, false⟩

def openCall : Leaf := ⟨"(", .opening false, false⟩

def closing (text : String) : Leaf := ⟨text, .closing, false⟩

def isOpening (l : Leaf) : Bool := l.role matches .opening _

def isClosing (l : Leaf) : Bool := l.role = .closing

def isComma (l : Leaf) : Bool := l.role = .comma

/-- The length of a leaf with the blank before it. -/
def length (l : Leaf) : Nat := l.text.length + (if l.spaced then 1 else 0)

/-- Items separated by commas, with blanks after these. -/
def separated : List (List Leaf) → List Leaf
  | [] => []
  | [item] => item
  | item :: rest =>
    item ++ comma ::
      match separated rest with
      | [] => []
      | l :: ls => { l with spaced := true } :: ls

end Leaf

/-- The part of a statement that a row is. -/
inductive Part where
  | whole
  | head
  | body
  | tail
deriving DecidableEq, Repr, Inhabited

/-- Leaves on one line at a depth of indentation; `eager` asks for a division even if they fit. -/
structure Row where
  depth : Nat
  part : Part
  eager : Bool
  leaves : List Leaf
deriving DecidableEq, Repr, Inhabited

namespace Row

/-- The text of leaves after the first. -/
def following : List Leaf → String
  | [] => ""
  | l :: ls => (if l.spaced then " " else "") ++ l.text ++ following ls

def text (r : Row) : String :=
  match r.leaves with
  | [] => ""
  | l :: ls => margin r.depth ++ l.text ++ following ls

def fits (limit : Nat) (r : Row) : Bool := Text.columns r.text ≤ limit

/-- A bracket pair of the row ends with a comma.  Closing brackets before any opening one belong to
no pair of the row; `depth` counts the pairs that are open. -/
def endsPairWithComma : (depth : Nat) → List Leaf → Bool
  | _, [] => false
  | _, [_] => false
  | depth, l :: m :: rest =>
    let inner := if l.isOpening then depth + 1 else if l.isClosing then depth - 1 else depth
    (l.isComma && m.isClosing && inner > 0) || endsPairWithComma inner (m :: rest)

/-- A row that its trailing commas ask to divide.  A tail is taken as it is. -/
def isForced (r : Row) : Bool := r.part ≠ .tail && endsPairWithComma 0 r.leaves

/-! ## Splits at a bracket pair -/

/-- Leaves in reverse up to the opening bracket that matches a closing one before them; `depth`
counts the pairs still open. -/
def takeBody : (depth : Nat) → (body : List Leaf) → List Leaf → Option (List Leaf × List Leaf)
  | _, _, [] => none
  | depth, body, l :: rest =>
    if l.isOpening then
      match depth with
      | 0 => some (body, l :: rest)
      | d + 1 => takeBody d (l :: body) rest
    else if l.isClosing then takeBody (depth + 1) (l :: body) rest
    else takeBody depth (l :: body) rest

/-- The last bracket pair with something in it, in leaves given in reverse: what stands before it
with the opening bracket, its content, and what follows with the closing bracket. -/
def lastPair (tail : List Leaf) : List Leaf → Option (List Leaf × List Leaf × List Leaf)
  | [] => none
  | l :: rest =>
    if l.isClosing then
      match rest with
      | [] => none
      | next :: _ =>
        if next.isOpening then lastPair (l :: tail) rest
        else (takeBody 0 [] rest).map fun (body, head) => (head.reverse, body, l :: tail)
    else lastPair (l :: tail) rest

/-- Whether commas divide leaves outside of brackets, a comma at the end not counted. -/
def hasComma : (depth : Nat) → List Leaf → Bool
  | _, [] => false
  | _, [_] => false
  | depth, l :: rest =>
    let inner := if l.isOpening then depth + 1 else if l.isClosing then depth - 1 else depth
    (depth = 0 && l.isComma) || hasComma inner rest

/-- A body that is divided whether it fits or not. -/
def isEager (head body : List Leaf) : Bool :=
  hasComma 0 body &&
    (body.getLast?.any Leaf.isComma || head.getLast?.any fun l => l.role = .opening true)

/-- A row split at its last bracket pair; the last `keep` leaves go with the tail. -/
def splitAt (r : Row) (keep : Nat) : Option (List Row) :=
  let reversed := r.leaves.reverse
  (lastPair (reversed.take keep).reverse (reversed.drop keep)).map fun (head, body, tail) =>
    [⟨r.depth, .head, false, head⟩, ⟨r.depth + 1, .body, isEager head body, body⟩,
      ⟨r.depth, .tail, false, tail⟩]

/-- How many leaves may go with the tail so that the split falls on an earlier pair: all leaves
after a closing bracket that another bracket pair follows, as long as they fit on a line.  A pair
that ends with a comma is never passed over.  `depth` counts the pairs open inside the pair last
passed, `seen` tells that one was passed. -/
def trailers (limit : Nat) :
    (length taken depth : Nat) → (seen : Bool) → List Leaf → List Nat
  | _, _, _, _, [] => []
  | length, taken, depth, seen, l :: rest =>
    let length := length + l.length
    if length > limit then []
    else if depth > 0 then
      let inner := if l.isOpening then depth - 1 else if l.isClosing then depth + 1 else depth
      trailers limit length (taken + 1) inner seen rest
    else if l.isClosing then
      if rest.head?.any Leaf.isOpening then trailers limit length (taken + 1) 0 seen rest
      else
        (if seen then [taken] else []) ++
          if rest.head?.any Leaf.isComma then []
          else trailers limit length (taken + 1) 1 true rest
    else trailers limit length (taken + 1) 0 seen rest

/-- The first of several splits whose head fits, else the split at the last pair. -/
def firstFitting (limit : Nat) (r : Row) : List Nat → Option (List Row)
  | [] => r.splitAt 0
  | keep :: rest =>
    match r.splitAt keep with
    | none => none
    | some rows => if rows.head?.any (fits limit) then some rows else firstFitting limit r rest

def split (limit : Nat) (r : Row) : Option (List Row) :=
  firstFitting limit r
    ((if r.isForced then [] else [0]) ++
      trailers limit (4 * r.depth) 0 0 false r.leaves.reverse)

/-! ## Division after commas -/

/-- Leaves divided after each comma outside of brackets. -/
def divideLeaves : (depth : Nat) → (current : List Leaf) → List Leaf → List (List Leaf)
  | _, current, [] => if current.isEmpty then [] else [current.reverse]
  | depth, current, l :: rest =>
    if depth = 0 && l.isComma then (l :: current).reverse :: divideLeaves 0 [] rest
    else
      let inner := if l.isOpening then depth + 1 else if l.isClosing then depth - 1 else depth
      divideLeaves inner (l :: current) rest

/-- A body divided after its commas, with a comma at its end. -/
def divide (r : Row) : Option (List Row) :=
  if !hasComma 0 r.leaves then none
  else
    let leaves := if r.leaves.getLast?.any Leaf.isComma then r.leaves else r.leaves ++ [Leaf.comma]
    some ((divideLeaves 0 [] leaves).map fun ls => ⟨r.depth, .body, false, ls⟩)

/-- One step of breaking a row: a body is divided if it can be, any other row is split.  A step that
gives back the same line is none. -/
def break? (limit : Nat) (r : Row) : Option (List Row) :=
  let rows? :=
    if r.part = .body then
      match r.divide with
      | some rows => some rows
      | none => r.split limit
    else r.split limit
  rows?.bind fun rows => if rows.any fun row => row.text == r.text then none else some rows

/-- A row broken until every part fits or cannot be broken; `fuel` bounds the depth of breaking. -/
def breakAll (limit : Nat) : (fuel : Nat) → Row → List Row
  | 0, r => [r]
  | fuel + 1, r =>
    if !r.eager && !r.isForced && r.fits limit then [r]
    else
      match r.break? limit with
      | some rows => rows.flatMap (breakAll limit fuel)
      | none => [r]

/-- The rows of a statement.  The commas added by a first layout count in a second one, which is
final. -/
def layOut (limit depth : Nat) (leaves : List Leaf) : List Row :=
  let once (ls : List Leaf) := breakAll limit (ls.length + 1) ⟨depth, .whole, false, ls⟩
  once ((once leaves).flatMap (·.leaves))

end Row

/-! ## Leaves of literals -/

/-- The quote around a text: double, unless the text holds more double quotes than single ones. -/
def quoteOf (cs : List Char) : Char := if cs.count '"' > cs.count '\'' then '\'' else '"'

/-- A text between the quotes that suit it. -/
def quotedText (s : String) : String :=
  String.ofList (Literal.between (quoteOf s.toList) s.toList)

/-- A row of code points between the quotes that suit it. -/
def quotedRow (ps : List Text.Point) : String :=
  String.ofList (Literal.pointsBetween (quoteOf (ps.map Text.Point.shown)) ps)

def quotedBytes (bs : List UInt8) : String :=
  let quote := quoteOf (bs.map fun b => Char.ofNat b.toNat)
  String.ofList ('b' :: quote :: (bs.flatMap (Literal.escapeByte quote) ++ [quote]))

/-- A number without a plus sign in its exponent. -/
def plainFloat (x : Binary64) : String :=
  String.ofList (x.shortest.toList.filter (· != '+'))

def bracketed (opening closing : String) (items : List (List Leaf)) : List Leaf :=
  ⟨opening, .opening true, false⟩ :: (Leaf.separated items ++ [.closing closing])

def callLeaves (callee : String) (arguments : List (List Leaf)) : List Leaf :=
  .plain callee :: .openCall :: (Leaf.separated arguments ++ [.closing ")"])

def numberLeaves (n : Nat) : List Leaf := [.plain (toString n)]

def spanLeaves (minutes : Int) : List Leaf :=
  let days := minutes.fdiv 1440
  let seconds := minutes.fmod 1440 * 60
  let parts := (if days = 0 then [] else ["days=" ++ toString days]) ++
    (if seconds = 0 then [] else ["seconds=" ++ toString seconds])
  callLeaves "datetime.timedelta" ((if parts.isEmpty then ["0"] else parts).map fun p => [.plain p])

def momentLeaves (m : Moment) : List Leaf :=
  let c := m.clock
  let tail :=
    if c.micro = 0 then (if c.second = 0 then [] else [c.second]) else [c.second, c.micro]
  let zone := match m.offset with
    | none => []
    | some 0 => [[Leaf.plain "tzinfo=datetime.timezone.utc"]]
    | some minutes => [callLeaves "tzinfo=datetime.timezone" [spanLeaves minutes]]
  callLeaves "datetime.datetime"
    (([m.date.year, m.date.month, m.date.day, c.hour, c.minute] ++ tail).map numberLeaves ++ zone)

mutual

def literalLeaves : Value → List Leaf
  | .text s => [.plain (quotedText s)]
  | .illFormed ps => [.plain (quotedRow ps)]
  | .bytes bs => [.plain (quotedBytes bs)]
  | .float x => [.plain (plainFloat x)]
  | .date d => callLeaves "datetime.date" [numberLeaves d.year, numberLeaves d.month,
      numberLeaves d.day]
  | .moment m => momentLeaves m
  | .list xs => bracketed "[" "]" (itemLeaves xs)
  | .tuple xs => bracketed "(" ")" (itemLeaves xs)
  | .set [] => callLeaves "set" []
  | .set xs => bracketed "\x7b" "\x7d" (itemLeaves xs)
  | .map es => bracketed "\x7b" "\x7d" (entryLeaves es)
  | .null => [.plain Literal.null]
  | .bool b => [.plain (Literal.bool b)]
  | .int i => [.plain (toString i)]

def itemLeaves : List Value → List (List Leaf)
  | [] => []
  | x :: xs => literalLeaves x :: itemLeaves xs

/-- The leaves of the entries of a mapping: a key, a colon, and the value after a blank. -/
def entryLeaves : List (Value × Value) → List (List Leaf)
  | [] => []
  | (k, v) :: es =>
    (literalLeaves k ++ .plain ":" ::
      match literalLeaves v with
      | [] => []
      | l :: ls => { l with spaced := true } :: ls) :: entryLeaves es

end

def statementLeaves (s : Statement) : List Leaf :=
  callLeaves s.kind (s.parameters.map literalLeaves) ++
    .openCall :: (Leaf.separated [[.plain (quotedText s.target)], [.plain (quotedText s.field)]] ++
      [.closing ")"])

def bindingLeaves (b : Binding) : List Leaf :=
  callLeaves (b.root.keyword ++ ".set_field")
    [[.plain b.quotedField], [.plain ("self." ++ b.method)]]

end EntityGraph.Handlers
