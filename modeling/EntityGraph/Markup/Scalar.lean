import EntityGraph.Markup.Node
import EntityGraph.Markup.Number
import EntityGraph.Text.Decoding

/-!
# Values of scalars

The value that a node stands for by a tag of scalars.  A mapping with a default entry can stand for
a scalar too: it has the text of that entry's value, which may lead on to another one as far as there
is room.

* `Graph.points`: the text of a node;
* `Graph.scalarValue`: the value of a node.
-/

namespace EntityGraph.Markup

open Text (Point)

def boolOfPoints (ps : List Point) : Except Failure Value :=
  let word := Text.toLower ps
  if ["yes", "true", "on"].any (isWord · word) then .ok (.bool true)
  else if ["no", "false", "off"].any (isWord · word) then .ok (.bool false)
  else .error (.unknownWord word)

def bytesOfPoints (mark : Mark) (ps : List Point) : Except Failure Value :=
  match Text.asciiFault? ps with
  | some fault => refuseAt mark ("failed to convert base64 data into ascii: " ++ fault)
  | none =>
    match Text.decodeBase64 (ps.map Point.shown) with
    | .ok bytes => .ok (.bytes bytes)
    | .error fault => refuseAt mark ("failed to decode base64 data: " ++ fault)

def timeOfPoints (ps : List Point) : Except Failure Value :=
  Timestamp.value (Tag.withoutFeed (ps.map Point.shown))

namespace Graph

/-- The text of a node, looked for in a bounded number of steps. -/
def pointsWithin (g : Graph) : (steps : Nat) → Place → Except Failure (List Point)
  | 0, _ => .error .nestedTooDeep
  | steps + 1, p =>
    let n := g.at p
    let refused := refuseAt n.mark ("expected a scalar node, but found " ++ n.noun)
    match n.content with
    | .scalar points => .ok points
    | .sequence _ => refused
    | .mapping entries =>
      match entries.find? fun e => (g.at e.1).tag = .value with
      | some e => pointsWithin g steps e.2
      | none => refused

section

variable [Limits]

/-- The text of a node.  Defaults that lead back to themselves give none. -/
def points (g : Graph) (p : Place) : Except Failure (List Point) :=
  g.pointsWithin (Limits.defaults + 1) p

/-- The value of a node that its tag calls a scalar. -/
def scalarValue (g : Graph) (p : Place) : Except Failure Value := do
  let n := g.at p
  match n.tag with
  | .null =>
    let _ ← g.points p
    return .null
  | .bool => boolOfPoints (← g.points p)
  | .int => return .int (← intOfPoints (← g.points p))
  | .float => return .float (← floatOfPoints (← g.points p))
  | .binary => bytesOfPoints n.mark (← g.points p)
  | .timestamp =>
    let ps ← g.points p
    match n.content with
    | .scalar _ => timeOfPoints ps
    | _ => .error (.wrongKind "expected string or bytes-like object, got 'list'")
  | .str => return .ofPoints (← g.points p)
  | tag =>
    refuseAt n.mark ("could not determine a constructor for the tag " ++ Literal.quoted tag.text)

end

end Graph

end EntityGraph.Markup
