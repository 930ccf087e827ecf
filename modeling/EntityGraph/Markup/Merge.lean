import EntityGraph.Markup.Node

/-!
# Merged mappings

An entry under the merge key stands for the entries of a mapping, or of several mappings.  Before a
mapping is read it is flattened: such entries go, and what they stand for comes before the entries
of its own.  The mappings that are merged are flattened first, inside one another as far as there is
room, and stay so wherever else they stand.  A default key of a flattened mapping becomes a text.

* `Graph.flatten`: a graph with one mapping flattened.
-/

namespace EntityGraph.Markup

/-- An entry of a mapping by the places of its key and its value. -/
abbrev Entry := Place × Place

def mappingActivity : String := "while constructing a mapping"

namespace Graph

def entries (g : Graph) (p : Place) : List Entry :=
  match (g.at p).content with
  | .mapping es => es
  | _ => []

def withEntries (g : Graph) (p : Place) (es : List Entry) : Graph :=
  g.modify p fun n => { n with content := .mapping es }

def withTag (g : Graph) (p : Place) (tag : Tag) : Graph := g.modify p fun n => { n with tag }

def isMerge (g : Graph) (e : Entry) : Bool := (g.at e.1).tag = .merge

/-- The value of the first merge entry, and the other entries. -/
def takeMerge? (g : Graph) : List Entry → Option (Place × List Entry)
  | [] => none
  | e :: rest =>
    if g.isMerge e then some (e.2, rest)
    else (takeMerge? g rest).map fun (source, others) => (source, e :: others)

def mergeCount (g : Graph) : Nat :=
  (g.toList.map fun n => match n.content with
    | .mapping es => es.countP g.isMerge
    | _ => 0).foldr (· + ·) 0

/-- The default keys among entries made texts. -/
def plainKeys (g : Graph) (es : List Entry) : Graph :=
  es.foldl (fun g e => if (g.at e.1).tag = .value then g.withTag e.1 .str else g) g

/-- A mapping without merge entries completed by what these stood for. -/
def complete (g : Graph) (p : Place) (merged : List Entry) : Graph :=
  let own := g.entries p
  let g := g.plainKeys own
  if merged.isEmpty then g else g.withEntries p (merged ++ own)

/-- The entries of several mappings, those of the last one first; `flatten` flattens each. -/
def mergedItems (flatten : Place → Graph → Except Failure Graph) (mark : Mark) :
    List Place → Graph → Except Failure (List Entry × Graph)
  | [], g => .ok ([], g)
  | p :: rest, g => do
    let n := g.at p
    if !(n.content matches .mapping _) then
      refuse mappingActivity mark ("expected a mapping for merging, but found " ++ n.noun) n.mark
    let g ← flatten p g
    let own := g.entries p
    let (others, g) ← mergedItems flatten mark rest g
    return (others ++ own, g)

/-- The entries that the value of a merge entry stands for. -/
def mergedFrom (flatten : Place → Graph → Except Failure Graph) (mark : Mark) (source : Place)
    (g : Graph) : Except Failure (List Entry × Graph) := do
  let n := g.at source
  match n.content with
  | .mapping _ =>
    let g ← flatten source g
    return (g.entries source, g)
  | .sequence items => mergedItems flatten mark items g
  | .scalar _ =>
    refuse mappingActivity mark
      ("expected a mapping or list of mappings for merging, but found " ++ n.noun) n.mark

/-- What the merge entries of a mapping stand for, and the graph without them.  Each step takes one
merge entry out of the graph, so there are no more steps than entries; `room` is for mappings that
are merged inside one another. -/
def takeMerges : (steps room : Nat) → Place → Graph → Except Failure (List Entry × Graph)
  | 0, _, _, g => .ok ([], g)
  | steps + 1, room, p, g =>
    match g.takeMerge? (g.entries p) with
    | none => .ok ([], g)
    | some (source, others) => do
      let flatten (q : Place) (g : Graph) : Except Failure Graph :=
        match room with
        | 0 => .error .nestedTooDeep
        | room + 1 => (takeMerges steps room q g).map fun (merged, g) => g.complete q merged
      let (first, g) ← mergedFrom flatten (g.at p).mark source (g.withEntries p others)
      let (more, g) ← takeMerges steps room p g
      return (first ++ more, g)

def flatten [Limits] (g : Graph) (p : Place) : Except Failure Graph :=
  let steps := if (g.entries p).any g.isMerge then g.mergeCount + 1 else 0
  (takeMerges steps Limits.merges p g).map fun (merged, g) => g.complete p merged

end Graph

end EntityGraph.Markup
