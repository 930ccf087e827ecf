import EntityGraph.Audit
import EntityGraph.Naming

/-!
# Example documents

An executable document with one fragment per entity and one block per operation, ready to be run
against the schema.  Entities without operations are left out.

* `Fragment`, `Block`: the parts of a document, with their texts;
* `Document.ofModels`: the document of a list of entities;
* `Document.text`: a document as text.
-/

namespace EntityGraph

/-- A fragment: its name, the type that it selects from, and the fields that it selects. -/
structure Fragment where
  name : String
  type : String
  fields : List String
deriving Repr, DecidableEq

/-- What a block selects from the result of its root field: a page of entities with their total, or
one entity. -/
inductive Selection where
  | entry
  | page
deriving Repr, DecidableEq

/-- A block that runs one root field on an input variable and spreads a fragment over the result. -/
structure Block where
  root : Root
  name : String
  inputType : String
  field : String
  selection : Selection
  fragment : String
deriving Repr, DecidableEq

/-- A document: its fragments, then its blocks. -/
structure Document where
  fragments : List Fragment
  blocks : List Block
deriving Repr, DecidableEq

namespace Fragment

/-- The fragment of an entity selects its properties. -/
def ofModel (m : Model) : Fragment := ⟨Naming.fragment m.name, m.name, m.propertyNames⟩

def lines (f : Fragment) : List String :=
  ("fragment " ++ f.name ++ " on " ++ f.type ++ " \x7b") :: (Naming.indent 1 f.fields ++ ["\x7d"])

def text (f : Fragment) : String := "\n".intercalate f.lines

end Fragment

def Selection.lines (s : Selection) (fragment : String) : List String :=
  let spread := "  ..." ++ fragment
  match s with
  | .entry => ["entry \x7b", spread, "\x7d"]
  | .page => ["entries \x7b", spread, "\x7d", "total"]

namespace Block

def ofOperation (m : Model) (o : Operation) : Except Failure Block := do
  let kind ← o.kind?
  return ⟨kind.root, Naming.block m.name kind, Naming.inputType m.name kind,
    Naming.rootField o.name m.name, if kind = .list then .page else .entry,
    Naming.fragment m.name⟩

def lines (b : Block) : List String :=
  (b.root.keyword ++ " " ++ b.name ++ "($input: " ++ b.inputType ++ "!) \x7b") ::
    ("  " ++ b.field ++ "(input: $input) \x7b") ::
    (Naming.indent 2 (b.selection.lines b.fragment) ++ ["  \x7d", "\x7d"])

def text (b : Block) : String := "\n".intercalate b.lines

end Block

namespace Document

def blocksOf (m : Model) : Except Failure (List Block) := m.operations.mapM (Block.ofOperation m)

def ofModels (models : List Model) : Except Failure Document := do
  let shown := models.filter Model.hasOperations
  let blocks ← shown.mapM blocksOf
  return ⟨shown.map Fragment.ofModel, blocks.flatten⟩

def parts (d : Document) : List String := d.fragments.map Fragment.text ++ d.blocks.map Block.text

/-- A document as text: its parts with blank lines between them, and a line break at the end unless
there is nothing to show. -/
def text (d : Document) : String :=
  let body := "\n\n".intercalate d.parts
  if body.isEmpty then "" else body ++ "\n"

def build (models : List Model) : Logged (Except Failure Document) := do
  match ofModels models with
  | .error failure => return .error failure
  | .ok d =>
    Logged.write .info .documents
      ("Document created: " ++ toString d.fragments.length ++ " fragment(s), " ++
        toString d.blocks.length ++ " operation(s).")
    return .ok d

end Document

end EntityGraph
