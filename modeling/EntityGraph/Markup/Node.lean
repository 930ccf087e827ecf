import EntityGraph.Markup.Tag
import EntityGraph.Markup.Token.Lexer

/-!
# Nodes

The graph of a document: scalars, sequences and mappings, each with a tag and the mark at which it
starts.  Every node has a place in the graph, and collections name their parts by place.  An alias
adds no node: it stands for the place that its anchor names, which may be that of a collection
around it.  Collections inside one another are read only as far as there is room for them.

* `Node`, `Graph`: a node, and the nodes of a document by place;
* `Graph.read`: the place of the node that a stream of tokens starts with;
* `Graph.document?`: the document of a text, none if the text has no content.
-/

namespace EntityGraph.Markup

/-- The place of a node in the graph of a document. -/
abbrev Place := Nat

/-- What a node holds. -/
inductive Content where
  | scalar (points : List Text.Point)
  | sequence (items : List Place)
  | mapping (entries : List (Place × Place))
deriving Inhabited

/-- A node of a document. -/
structure Node where
  tag : Tag
  content : Content
  mark : Mark
deriving Inhabited

/-- What a node is, as problems call it. -/
def Node.noun (n : Node) : String :=
  match n.content with
  | .scalar _ => "scalar"
  | .sequence _ => "sequence"
  | .mapping _ => "mapping"

/-- The nodes of a document by place. -/
abbrev Graph := Array Node

def Graph.at (g : Graph) (p : Place) : Node := g.getD p default

/-- A stream of tokens in reading: how many collections may yet be opened inside one another, the
nodes that have been read, the next free place, the places that anchors name with the marks of their
nodes, and the URIs that tag handles stand for. -/
structure NodeReader where
  tokens : TokenStream
  room : Nat
  nodes : List (Place × Node) := []
  free : Place := 0
  anchors : List (String × Place × Mark) := []
  handles : List (String × String) := []

namespace NodeReader

def peek (r : NodeReader) : Except Failure Token := r.tokens.head

def next (r : NodeReader) : NodeReader := { r with tokens := r.tokens.tail }

/-- A reader inside one more collection. -/
def enter (r : NodeReader) : Except Failure NodeReader :=
  match r.room with
  | 0 => .error .nestedTooDeep
  | room + 1 => .ok { r with room }

/-- A reader after the collection that it was inside. -/
def leave (r : NodeReader) : NodeReader := { r with room := r.room + 1 }

/-- A place for a node that is still to be read. -/
def reserve (r : NodeReader) : Place × NodeReader := (r.free, { r with free := r.free + 1 })

def put (r : NodeReader) (p : Place) (n : Node) : NodeReader :=
  { r with nodes := (p, n) :: r.nodes }

def add (r : NodeReader) (n : Node) : Place × NodeReader :=
  let (p, r) := r.reserve
  (p, r.put p n)

/-- The scalar without content that stands where nothing is written. -/
def absent (r : NodeReader) (mark : Mark) : Place × NodeReader := r.add ⟨.null, .scalar [], mark⟩

/-- The place that an anchor names, with the mark of its node. -/
def find? (r : NodeReader) (name : String) : Option (Place × Mark) :=
  (r.anchors.find? fun a => a.1 == name).map (·.2)

/-- An anchor that names a place from now on. -/
def name (r : NodeReader) (anchor : Option String) (p : Place) (mark : Mark) : NodeReader :=
  match anchor with
  | some a => { r with anchors := (a, p, mark) :: r.anchors }
  | none => r

def uri? (r : NodeReader) (handle : String) : Option String :=
  (r.handles.find? fun h => h.1 == handle).map (·.2)

def graph (r : NodeReader) : Graph :=
  r.nodes.foldl (fun g n => g.set! n.1 n.2) (Array.replicate r.free default)

end NodeReader

/-- The handles that need no directive. -/
def standardHandles : List (String × String) := [("!", "!"), ("!!", Tag.standard)]

/-- The properties before the content of a node. -/
structure Properties where
  anchor : Option String := none
  tag : Option String := none
  start : Option Mark := none

def resolveTag (r : NodeReader) (start mark : Mark) (handle : Option String) (suffix : String) :
    Except Failure String :=
  match handle with
  | none => .ok suffix
  | some h =>
    match r.uri? h with
    | some uri => .ok (uri ++ suffix)
    | none =>
      refuse "while parsing a node" start ("found undefined tag handle " ++ Literal.quoted h) mark

/-- The properties of a node: an anchor and a tag in either order, or one of them, or none. -/
def readProperties (r : NodeReader) : Except Failure (Properties × NodeReader) := do
  let first ← r.peek
  match first.symbol with
  | .anchor name =>
    let second ← r.next.peek
    match second.symbol with
    | .tag handle suffix =>
      let uri ← resolveTag r first.start second.start handle suffix
      return ({ anchor := some name, tag := some uri, start := some first.start }, r.next.next)
    | _ => return ({ anchor := some name, start := some first.start }, r.next)
  | .tag handle suffix =>
    let second ← r.next.peek
    let uri ← resolveTag r first.start first.start handle suffix
    match second.symbol with
    | .anchor name =>
      return ({ anchor := some name, tag := some uri, start := some first.start }, r.next.next)
    | _ => return ({ tag := some uri, start := some first.start }, r.next)
  | _ => return ({}, r)

namespace Properties

/-- The tag that says nothing but that the content decides. -/
def undecided : String := "!"

/-- The tag of a scalar.  Only a plain one implies its tag, unless it is undecided. -/
def scalarTag (p : Properties) (points : List Text.Point) (isPlain : Bool) : Tag :=
  let implied := Tag.ofPlain (points.map Text.Point.shown)
  match p.tag with
  | none => if isPlain then implied else .str
  | some uri => if uri = undecided then implied else Tag.ofText uri

def collectionTag (p : Properties) (default : Tag) : Tag :=
  match p.tag with
  | none => default
  | some uri => if uri = undecided then default else Tag.ofText uri

end Properties

/-- An anchor names one node of a document only. -/
def checkAnchor (r : NodeReader) (p : Properties) (start : Mark) : Except Failure Unit :=
  match p.anchor.bind fun a => (r.find? a).map fun n => (a, n.2) with
  | some (a, first) =>
    refuse ("found duplicate anchor " ++ Literal.quoted a ++ "; first occurrence") first
      "second occurrence" start
  | none => .ok ()

/-- Where a node may stand: in a flow collection, in a block, or in a block mapping, where a
sequence need not be indented. -/
inductive Context where
  | flow
  | block
  | entry
deriving DecidableEq

def Context.noun : Context → String
  | .flow => "flow"
  | .block | .entry => "block"

namespace Symbol

/-- A token that ends an item of a block sequence. -/
def endsItem : Symbol → Bool
  | entry | blockEnd => true
  | _ => false

/-- A token that ends a part of an entry of a block mapping. -/
def endsPart : Symbol → Bool
  | key | value | blockEnd => true
  | _ => false

/-- A token that ends an item of a sequence that is not indented. -/
def endsBareItem (s : Symbol) : Bool := s.endsItem || s.endsPart

/-- A token that ends the value of an entry in a flow sequence. -/
def endsSequenceValue : Symbol → Bool
  | comma | closeSequence => true
  | _ => false

/-- A token that ends the key of an entry in a flow sequence. -/
def endsSequenceKey (s : Symbol) : Bool := s.endsSequenceValue || s matches value

/-- A token that ends the value of an entry in a flow mapping. -/
def endsMappingValue : Symbol → Bool
  | comma | closeMapping => true
  | _ => false

/-- A token that ends the key of an entry in a flow mapping. -/
def endsMappingKey (s : Symbol) : Bool := s.endsMappingValue || s matches value

end Symbol

namespace Graph

/-- A collection in a flow that goes on after an item with neither a comma nor its end. -/
def refuseFlow {α : Type} (noun closing : String) (since : Mark) (t : Token) : Except Failure α :=
  refuse ("while parsing a flow " ++ noun) since
    ("expected ',' or '" ++ closing ++ "', but got " ++ t.shown) t.start

/-- A block collection that goes on with neither an item nor its end. -/
def refuseBlock {α : Type} (noun : String) (since : Mark) (t : Token) : Except Failure α :=
  refuse ("while parsing a block " ++ noun) since
    ("expected <block end>, but found " ++ t.shown) t.start

mutual

/-- The place of the node that a stream of tokens starts with. -/
def read : (fuel : Nat) → Context → NodeReader → Except Failure (Place × NodeReader)
  | 0, _, r => do return r.absent (← r.peek).start
  | fuel + 1, context, r => do
    let first ← r.peek
    match first.symbol with
    | .reference name =>
      match r.find? name with
      | some (place, _) => return (place, r.next)
      | none => refuseAt first.start ("found undefined alias " ++ Literal.quoted name)
    | _ =>
      let (p, r) ← readProperties r
      let t ← r.peek
      let start := p.start.getD t.start
      checkAnchor r p start
      readContent fuel context p start t r

/-- The content of a node with the given properties and start; `t` is its first token. -/
def readContent : (fuel : Nat) → Context → Properties → Mark → Token → NodeReader →
    Except Failure (Place × NodeReader)
  | 0, _, _, start, _, r => .ok (r.absent start)
  | fuel + 1, context, p, start, t, r =>
    let inBlock := context ≠ .flow
    let sequenceOf (readItems : NodeReader → Except Failure (List Place × NodeReader)) :
        Except Failure (Place × NodeReader) := do
      let (place, r) := r.reserve
      let (items, r) ← readItems (← (r.name p.anchor place start).enter)
      return (place, r.leave.put place ⟨p.collectionTag .seq, .sequence items, start⟩)
    let mappingOf (readEntries : NodeReader → Except Failure (List (Place × Place) × NodeReader)) :
        Except Failure (Place × NodeReader) := do
      let (place, r) := r.reserve
      let (entries, r) ← readEntries (← (r.name p.anchor place start).enter)
      return (place, r.leave.put place ⟨p.collectionTag .map, .mapping entries, start⟩)
    let scalarOf (points : List Text.Point) (isPlain : Bool) (r : NodeReader) :
        Place × NodeReader :=
      let (place, r) := r.add ⟨p.scalarTag points isPlain, .scalar points, start⟩
      (place, r.name p.anchor place start)
    match t.symbol with
    | .scalar points isPlain => .ok (scalarOf points isPlain r.next)
    | .openSequence => sequenceOf fun r => readFlowItems fuel true t.start r.next
    | .openMapping => mappingOf fun r => readFlowEntries fuel true t.start r.next
    | symbol =>
      if context = .entry && symbol matches .entry then sequenceOf (readBareItems fuel)
      else if inBlock && symbol matches .blockSequence then
        sequenceOf fun r => readBlockItems fuel t.start r.next
      else if inBlock && symbol matches .blockMapping then
        mappingOf fun r => readBlockEntries fuel t.start r.next
      else if p.start.isSome then .ok (scalarOf [] true r)
      else
        refuse ("while parsing a " ++ context.noun ++ " node") start
          ("expected the node content, but found " ++ t.shown) t.start

/-- A part that may be left out: nothing is read if the next token ends it. -/
def readPart : (fuel : Nat) → Context → (ends : Symbol → Bool) → Mark → NodeReader →
    Except Failure (Place × NodeReader)
  | 0, _, _, mark, r => .ok (r.absent mark)
  | fuel + 1, context, ends, mark, r => do
    if ends (← r.peek).symbol then return r.absent mark else read fuel context r

def readBlockItems : (fuel : Nat) → Mark → NodeReader → Except Failure (List Place × NodeReader)
  | 0, _, r => .ok ([], r)
  | fuel + 1, since, r => do
    let t ← r.peek
    match t.symbol with
    | .entry =>
      let (item, r) ← readPart fuel .block Symbol.endsItem t.stop r.next
      let (items, r) ← readBlockItems fuel since r
      return (item :: items, r)
    | .blockEnd => return ([], r.next)
    | _ => refuseBlock "collection" since t

/-- The items of a block sequence that is not indented. -/
def readBareItems : (fuel : Nat) → NodeReader → Except Failure (List Place × NodeReader)
  | 0, r => .ok ([], r)
  | fuel + 1, r => do
    let t ← r.peek
    match t.symbol with
    | .entry =>
      let (item, r) ← readPart fuel .block Symbol.endsBareItem t.stop r.next
      let (items, r) ← readBareItems fuel r
      return (item :: items, r)
    | _ => return ([], r)

/-- The value of an entry; nothing is read without a colon. -/
def readValue : (fuel : Nat) → Context → (ends : Symbol → Bool) → NodeReader →
    Except Failure (Place × NodeReader)
  | 0, _, _, r => do return r.absent (← r.peek).start
  | fuel + 1, context, ends, r => do
    let t ← r.peek
    match t.symbol with
    | .value => readPart fuel context ends t.stop r.next
    | _ => return r.absent t.start

def readBlockEntries : (fuel : Nat) → Mark → NodeReader →
    Except Failure (List (Place × Place) × NodeReader)
  | 0, _, r => .ok ([], r)
  | fuel + 1, since, r => do
    let t ← r.peek
    match t.symbol with
    | .key =>
      let (key, r) ← readPart fuel .entry Symbol.endsPart t.stop r.next
      let (value, r) ← readValue fuel .entry Symbol.endsPart r
      let (entries, r) ← readBlockEntries fuel since r
      return ((key, value) :: entries, r)
    | .blockEnd => return ([], r.next)
    | _ => refuseBlock "mapping" since t

/-- The items of a flow sequence; all but the first follow a comma. -/
def readFlowItems : (fuel : Nat) → (first : Bool) → Mark → NodeReader →
    Except Failure (List Place × NodeReader)
  | 0, _, _, r => .ok ([], r)
  | fuel + 1, first, since, r => do
    let t ← r.peek
    if t.symbol matches .closeSequence then return ([], r.next)
    let r ← if first then pure r
      else if t.symbol matches .comma then pure r.next
      else refuseFlow "sequence" "]" since t
    let t ← r.peek
    match t.symbol with
    | .closeSequence => return ([], r.next)
    | .key =>
      let (key, r) ← readPart fuel .flow Symbol.endsSequenceKey t.stop (← r.next.enter)
      let (value, r) ← readValue fuel .flow Symbol.endsSequenceValue r
      let (item, r) := r.leave.add ⟨.map, .mapping [(key, value)], t.start⟩
      let (items, r) ← readFlowItems fuel false since r
      return (item :: items, r)
    | _ =>
      let (item, r) ← read fuel .flow r
      let (items, r) ← readFlowItems fuel false since r
      return (item :: items, r)

/-- The entries of a flow mapping; all but the first follow a comma. -/
def readFlowEntries : (fuel : Nat) → (first : Bool) → Mark → NodeReader →
    Except Failure (List (Place × Place) × NodeReader)
  | 0, _, _, r => .ok ([], r)
  | fuel + 1, first, since, r => do
    let t ← r.peek
    if t.symbol matches .closeMapping then return ([], r.next)
    let r ← if first then pure r
      else if t.symbol matches .comma then pure r.next
      else refuseFlow "mapping" "\x7d" since t
    let t ← r.peek
    match t.symbol with
    | .closeMapping => return ([], r.next)
    | .key =>
      let (key, r) ← readPart fuel .flow Symbol.endsMappingKey t.stop r.next
      let (value, r) ← readValue fuel .flow Symbol.endsMappingValue r
      let (entries, r) ← readFlowEntries fuel false since r
      return ((key, value) :: entries, r)
    | _ =>
      let (key, r) ← read fuel .flow r
      let (value, r) := r.absent (← r.peek).start
      let (entries, r) ← readFlowEntries fuel false since r
      return ((key, value) :: entries, r)

end

/-! ## Documents -/

/-- The directives before a document: whether one of them gives a version, and the handles that they
declare. -/
structure Directives where
  hasVersion : Bool := false
  handles : List (String × String) := []

def Directives.add (ds : Directives) (d : Directive) (mark : Mark) : Except Failure Directives :=
  match d with
  | .version major _ =>
    if ds.hasVersion then refuseAt mark "found duplicate YAML directive"
    else if major ≠ 1 then
      refuseAt mark "found incompatible YAML document (version 1.* is required)"
    else .ok { ds with hasVersion := true }
  | .tag handle uri =>
    if ds.handles.any fun h => h.1 == handle then
      refuseAt mark ("duplicate tag handle " ++ Literal.quoted handle)
    else .ok { ds with handles := ds.handles ++ [(handle, uri)] }
  | .unknown _ => .ok ds

/-- The directives at the start of a stream of tokens. -/
def readDirectives : (fuel : Nat) → Directives → NodeReader →
    Except Failure (Directives × NodeReader)
  | 0, ds, r => .ok (ds, r)
  | fuel + 1, ds, r => do
    let t ← r.peek
    match t.symbol with
    | .directive d => readDirectives fuel (← ds.add d t.start) r.next
    | _ => return (ds, r)

/-- The start of a document that has an indicator, with the handles declared before it. -/
def readStart (fuel : Nat) (r : NodeReader) : Except Failure NodeReader := do
  let (ds, r) ← readDirectives fuel {} r
  let t ← r.peek
  match t.symbol with
  | .documentStart => return { r.next with handles := ds.handles ++ standardHandles }
  | _ => refuseAt t.start ("expected '<document start>', but found " ++ t.shown)

/-- A token at which a document without content ends. -/
def endsDocument : Symbol → Bool
  | .directive _ | .documentStart | .documentEnd | .streamEnd => true
  | _ => false

def skipEnds : (fuel : Nat) → NodeReader → Except Failure NodeReader
  | 0, r => .ok r
  | fuel + 1, r => do
    match (← r.peek).symbol with
    | .documentEnd => skipEnds fuel r.next
    | _ => return r

/-- A text has one document only, whose root starts at the given mark. -/
def checkEnd (fuel : Nat) (start : Mark) (r : NodeReader) : Except Failure Unit := do
  let r ← skipEnds fuel r
  let t ← r.peek
  match t.symbol with
  | .streamEnd => return
  | _ =>
    let _ ← readStart fuel r
    refuse "expected a single document in the stream" start "but found another document" t.start

/-- The document of a stream of tokens: the place of its root, and its nodes. -/
def readDocument (fuel : Nat) (r : NodeReader) : Except Failure (Option (Place × Graph)) := do
  let t ← r.peek
  match t.symbol with
  | .streamEnd => return none
  | _ =>
    let (root, r) ← match t.symbol with
      | .directive _ | .documentStart => do
        let r ← readStart fuel r
        readPart fuel .block endsDocument (← r.peek).start r
      | _ => read fuel .block { r with handles := standardHandles }
    let g := r.graph
    checkEnd fuel (g.at root).mark r
    return some (root, g)

/-- A bound on the steps that reading the document of a text takes. -/
def stepBound (text : List Char) : Nat := 5 * Lexer.tokenBound text

def document? [Limits] (text : List Char) : Except Failure (Option (Place × Graph)) :=
  readDocument (stepBound text) { tokens := Lexer.stream text, room := Limits.nodes }

end Graph

end EntityGraph.Markup
