import EntityGraph.Markup.Merge
import EntityGraph.Markup.Scalar
import EntityGraph.Value.SetOrder

/-!
# Meanings

The value that a text stands for, in a human-friendly notation for data that has JSON as a part.  The
text is read as a document, and the document gives the value.  A scalar is read at once when it is
met; a collection is opened in its turn, after every collection met before it.  Whatever is met first
in that order is what a faulty document is refused for.  A node that is met again stands for the same
as before.

Values are finite, so a collection that holds itself is not given as it is.  It is unfolded
`Reading.levels` times, which is more than records have, and then ends in null.  The parameters of a
validator, which may hold anything, are all that this can be seen in.

* `Meaning`: what a node stands for, in terms of what other nodes stand for;
* `Reading`: a document in reading, with `Reading.meet` and `Reading.openNode`;
* `Graph.value`: the value of a document;
* `parse`: the value of a text.
-/

namespace EntityGraph.Markup

/-- What a node stands for: a value of its own, or a collection of what other nodes stand for.  The
origin of a value tells one undefined number from another. -/
inductive Meaning where
  | plain (v : Value) (origin : Place)
  | list (items : List Place)
  | map (entries : List Entry)
  | set (entries : List Entry)
  | pairs (entries : List Entry)

def Meaning.parts : Meaning → List Place
  | plain .. => []
  | list items => items
  | map es | set es | pairs es => es.flatMap fun e => [e.1, e.2]

def Tag.isCollection : Tag → Bool
  | .seq | .map | .set | .omap | .pairs => true
  | _ => false

/-- A document in reading: its nodes as they are by now, what those met so far stand for, and the
collections that wait to be opened, the last one first. -/
structure Reading where
  graph : Graph
  meanings : Array (Option Meaning)
  waiting : List Place := []

section

variable [Limits]

namespace Reading

/-- A document of which no node has been met. -/
def start (g : Graph) : Reading := { graph := g, meanings := Array.replicate g.size none }

/-- What a node stands for, if it has been met. -/
def meaning? (r : Reading) (p : Place) : Option Meaning := r.meanings.getD p none

def record (r : Reading) (p : Place) (m : Meaning) : Reading :=
  { r with meanings := r.meanings.set! p (some m) }

/-- Where the value of a scalar comes from: the node itself, but one place outside the document for
all undefined numbers that are spelled by their word. -/
def originOf (r : Reading) (p : Place) : Place :=
  let isUndefined := (r.graph.at p).tag = .float &&
    ((r.graph.points p).toOption.map isUndefinedWord).getD false
  if isUndefined then r.graph.size else p

/-- A node is met: a scalar is read, and a collection waits to be opened. -/
def meet (r : Reading) (p : Place) : Except Failure Reading :=
  if (r.meaning? p).isSome then .ok r
  else if (r.graph.at p).tag.isCollection then
    .ok { r.record p (.list []) with waiting := p :: r.waiting }
  else (r.graph.scalarValue p).map fun v => r.record p (.plain v (r.originOf p))

/-- The parts of an entry are met in turn; a key must not be a collection. -/
def meetEntry (mark : Mark) (r : Reading) (e : Entry) : Except Failure Reading := do
  let r ← r.meet e.1
  match r.meaning? e.1 with
  | some (.plain ..) => r.meet e.2
  | _ => refuse mappingActivity mark "found unhashable key" (r.graph.at e.1).mark

/-- A mapping is flattened, and its entries are met in turn. -/
def openMapping (r : Reading) (p : Place) : Except Failure (List Entry × Reading) := do
  let n := r.graph.at p
  match n.content with
  | .mapping _ =>
    let r := { r with graph := ← r.graph.flatten p }
    let es := r.graph.entries p
    return (es, ← es.foldlM (meetEntry n.mark) r)
  | _ => refuseAt n.mark ("expected a mapping node, but found " ++ n.noun)

def openSequence (r : Reading) (p : Place) : Except Failure (List Place × Reading) := do
  let n := r.graph.at p
  match n.content with
  | .sequence items => return (items, ← items.foldlM meet r)
  | _ => refuseAt n.mark ("expected a sequence node, but found " ++ n.noun)

/-- A list of pairs as problems call it. -/
def pairsActivity (tag : Tag) : String :=
  "while constructing " ++ if tag = .omap then "an ordered map" else "pairs"

/-- An item of a list of pairs is a mapping with one entry, whose parts are met in turn. -/
def openPair (n : Node) (r : Reading) (p : Place) : Except Failure (Entry × Reading) := do
  let item := r.graph.at p
  match item.content with
  | .mapping [e] => return (e, ← (← r.meet e.1).meet e.2)
  | .mapping es =>
    refuse (pairsActivity n.tag) n.mark
      ("expected a single mapping item, but found " ++ toString es.length ++ " items") item.mark
  | _ =>
    refuse (pairsActivity n.tag) n.mark
      ("expected a mapping of length 1, but found " ++ item.noun) item.mark

/-- The items of a list of pairs are opened in turn. -/
def openPairs (r : Reading) (p : Place) : Except Failure (List Entry × Reading) := do
  let n := r.graph.at p
  match n.content with
  | .sequence items =>
    items.foldlM (fun (es, r) item => (openPair n r item).map fun (e, r) => (es ++ [e], r)) ([], r)
  | _ => refuse (pairsActivity n.tag) n.mark ("expected a sequence, but found " ++ n.noun) n.mark

def openNode (r : Reading) (p : Place) : Except Failure Reading := do
  match (r.graph.at p).tag with
  | .seq => return (← r.openSequence p) |> fun (items, r) => r.record p (.list items)
  | .map => return (← r.openMapping p) |> fun (es, r) => r.record p (.map es)
  | .set => return (← r.openMapping p) |> fun (es, r) => r.record p (.set es)
  | .omap | .pairs => return (← r.openPairs p) |> fun (es, r) => r.record p (.pairs es)
  | _ => return r

/-- The collections that wait are opened one after another, and those met on the way after them. -/
def openWaiting : (rounds : Nat) → Reading → Except Failure Reading
  | 0, r => .ok r
  | rounds + 1, r =>
    if r.waiting.isEmpty then .ok r
    else do openWaiting rounds (← r.waiting.reverse.foldlM openNode { r with waiting := [] })

/-! ## Values -/

def origin (r : Reading) (p : Place) : Place :=
  match r.meaning? p with
  | some (.plain _ o) => o
  | _ => p

/-- Entries with one more; a key of the same origin or an equal key keeps its place. -/
def putEntry (origin : Place) (key value : Value) :
    List (Place × Value × Value) → List (Place × Value × Value)
  | [] => [(origin, key, value)]
  | (o, k, v) :: rest =>
    if o = origin || k.same key then (o, k, value) :: rest
    else (o, k, v) :: putEntry origin key value rest

/-- The entries of a mapping, given the values of nodes. -/
def entryValues (r : Reading) (part : Place → Value) (es : List Entry) : List (Value × Value) :=
  (es.foldl (fun seen e => putEntry (r.origin e.1) (part e.1) (part e.2) seen) []).map (·.2)

/-- The value of a meaning, given the values of nodes. -/
def valueFrom (r : Reading) (part : Place → Value) : Meaning → Value
  | .plain v _ => v
  | .list items => .list (items.map part)
  | .map es => .map (r.entryValues part es)
  | .set es => .set (SetOrder.arrange ((r.entryValues part es).map (·.1)))
  | .pairs es => .list (es.map fun e => .tuple [part e.1, part e.2])

/-- The values of more nodes: of those whose parts all have values. -/
def settleOnce (r : Reading) (vs : Array (Option Value)) : Array (Option Value) :=
  vs.mapIdx fun p v =>
    match v, r.meaning? p with
    | none, some m =>
      if m.parts.all fun q => (vs.getD q none).isSome then
        some (r.valueFrom (fun q => (vs.getD q none).getD .null) m)
      else none
    | v, _ => v

/-- The values of all nodes that do not lead back to themselves. -/
def settle (r : Reading) : (rounds : Nat) → Array (Option Value) → Array (Option Value)
  | 0, vs => vs
  | rounds + 1, vs =>
    let next := r.settleOnce vs
    if next.count none = vs.count none then vs else settle r rounds next

/-- The values of nodes one level further unfolded; those that are settled stay. -/
def unfoldOnce (r : Reading) (settled : Array (Option Value)) (vs : Array Value) : Array Value :=
  vs.mapIdx fun p v =>
    match settled.getD p none, r.meaning? p with
    | none, some m => r.valueFrom (fun q => vs.getD q .null) m
    | _, _ => v

/-- How many levels of a collection that holds itself are unfolded: more than records have. -/
def levels : Nat := 12

def value (r : Reading) (p : Place) : Value :=
  let size := r.graph.size
  let settled := r.settle size (Array.replicate size none)
  match settled.getD p none with
  | some v => v
  | none =>
    let first := settled.map (·.getD .null)
    (Nat.repeat (r.unfoldOnce settled) levels first).getD p .null

end Reading

/-- The value of a document with the root at a place. -/
def Graph.value (g : Graph) (root : Place) : Except Failure Value := do
  let r ← (Reading.start g).meet root
  return (← r.openWaiting g.size).value root

/-! ## Texts -/

def isAllowed (c : Char) : Bool :=
  c = '\t' || c = '\n' || c = '\r' || (' ' ≤ c && c ≤ '~') || c = '\u0085' ||
    ('\u00a0' ≤ c && c.toNat ≤ 0xFFFD) || c.toNat ≥ 0x10000

/-- A number in hexadecimal with four digits at least. -/
def hexText (n : Nat) : String :=
  String.ofList (Literal.hex (if n < 0x10000 then 4 else if n < 0x100000 then 5 else 6) n)

/-- The refusal of the first character that a text may not hold. -/
def checkCharacters (cs : List Char) : Except Failure Unit :=
  let good := cs.takeWhile isAllowed
  match cs.drop good.length with
  | [] => .ok ()
  | c :: _ =>
    refuseText ("unacceptable character #x" ++ hexText c.toNat ++
      ": special characters are not allowed\n  in \"" ++ Mark.sourceName ++ "\", position " ++
      toString good.length)

/-- The value that a text stands for; a text without content stands for null. -/
def parse (s : String) : Except Failure Value := do
  let cs := s.toList
  checkCharacters cs
  match ← Graph.document? cs with
  | none => return .null
  | some (root, g) => g.value root

end

end EntityGraph.Markup
