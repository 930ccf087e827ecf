import EntityGraph.Handlers.Layout
import EntityGraph.Handlers.Path

/-!
# The module within a line limit

How each part of the module is written when its lines are kept within a limit.  Texts are quoted
with double quotes, and whatever is too long for one line is broken in the way of its kind:
an import and the head of a method put their names on lines of their own, a returned call its
argument, an assignment its value, a statement or a binding whatever its layout asks.

* `Import.wrapped`, `HandlerClass.wrapped`, `Piece.wrapped`: the lines of the parts;
* `Piece.isShallow`: a contribution whose statements can be laid out;
* `wrappedLines`: the lines of a module.
-/

namespace EntityGraph.Handlers

def fitsLine (limit : Nat) (line : String) : Bool := Text.columns line ≤ limit

/-- Items on lines of their own at a depth, each with a comma. -/
def itemLines (depth : Nat) (items : List String) : List String :=
  items.map fun item => margin depth ++ item ++ ","

/-- An import of names from a path, on one line or with a line for each name. -/
def importLines (limit : Nat) (path : String) (names : List String) : List String :=
  let opening := "from " ++ path ++ " import "
  let line := opening ++ ", ".intercalate names
  if fitsLine limit line then [line] else (opening ++ "(") :: (itemLines 1 names ++ [")"])

def Import.wrapped (limit : Nat) (i : Import) : List String :=
  importLines limit ((settlePath? i.path).getD i.path) [i.name]

/-- The head of a method: on one line, or with its parameters on the next line, or with a line for
each of them. -/
def headLines (limit : Nat) (opening : String) (parameters : List String) (closing : String) :
    List String :=
  let line := margin 1 ++ headLine opening parameters closing
  if fitsLine limit line then [line]
  else
    let body := margin 2 ++ ", ".intercalate parameters
    (margin 1 ++ opening) ::
      ((if fitsLine limit body then [body] else itemLines 2 parameters) ++ [margin 1 ++ closing])

/-- The lines that return a method's call: its argument goes to a line of its own if the call is too
long, and the whole call goes between parentheses if that lets every line fit. -/
def Method.callLines (limit : Nat) (m : Method) : List String :=
  let line := margin 2 ++ "return " ++ m.call ++ "(input)"
  let broken := [margin 2 ++ "return " ++ m.call ++ "(", margin 3 ++ "input", margin 2 ++ ")"]
  let nested := [margin 2 ++ "return (", margin 3 ++ m.call ++ "(", margin 4 ++ "input",
    margin 3 ++ ")", margin 2 ++ ")"]
  if fitsLine limit line then [line]
  else if broken.head?.any (fitsLine limit) then broken
  else if nested.all (fitsLine limit) then nested
  else broken

def Method.wrapped (limit : Nat) (m : Method) : List String :=
  headLines limit ("async def " ++ m.name ++ "(") methodParameters "):" ++ m.callLines limit

def laidOut (limit depth : Nat) (leaves : List Leaf) : List String :=
  (Row.layOut limit depth leaves).map Row.text

def Binding.wrapped (limit : Nat) (b : Binding) : List String := laidOut limit 2 (bindingLeaves b)

namespace HandlerClass

def keepLines (limit : Nat) (c : HandlerClass) : List String :=
  let line := margin 2 ++ "self." ++ c.holder ++ " = " ++ c.holder
  let body := margin 3 ++ c.holder
  if fitsLine limit line || !fitsLine limit body then [line]
  else [margin 2 ++ "self." ++ c.holder ++ " = (", body, margin 2 ++ ")"]

def bindWrapped (limit : Nat) (c : HandlerClass) : List String :=
  headLines limit "def bind(" bindParameters ") -> None:" ++
    if c.bindings.isEmpty then [margin 2 ++ "pass"]
    else c.bindings.flatMap (Binding.wrapped limit)

def wrapped (limit : Nat) (c : HandlerClass) : List String :=
  ("class " ++ c.name ++ ":") ::
    (headLines limit "def __init__(" c.initParameters ") -> None:" ++ c.keepLines limit) ++
    (c.methods.flatMap fun m => "" :: m.wrapped limit) ++ "" :: c.bindWrapped limit

end HandlerClass

/-- The lines of the statements of a contribution, with two blank lines after them. -/
def Piece.statementBlock (limit : Nat) (p : Piece) : List String :=
  if p.statements.isEmpty then []
  else p.statements.flatMap (fun s => laidOut limit 0 (statementLeaves s)) ++ ["", ""]

def Piece.wrapped (limit : Nat) (p : Piece) : List String :=
  p.statementBlock limit ++ p.handlers.wrapped limit

/-- The most brackets that are open at once in a row; `opened` of them are open before it. -/
def mostOpened : (opened : Nat) → List Leaf → Nat
  | opened, [] => opened
  | opened, l :: ls =>
    let inner := if l.isOpening then opened + 1 else if l.isClosing then opened - 1 else opened
    max opened (mostOpened inner ls)

/-- A contribution whose statements the stack has room to lay out. -/
def Piece.isShallow [Limits] (p : Piece) : Bool :=
  p.statements.all fun s => mostOpened 0 (statementLeaves s) ≤ Limits.layouts

/-- The lines of a module: its imports, the first of them set apart, and then its contributions.
One blank line stands before statements that follow the imports, two before a class and between
contributions. -/
def wrappedLines (limit : Nat) (path : String) (names : List String) (imports : List Import)
    (pieces : List Piece) : List String :=
  let first := importLines limit path names
  match pieces with
  | [] => first
  | p :: ps =>
    let gap := if p.statements.isEmpty then ["", ""] else [""]
    first ++ "" :: imports.flatMap (Import.wrapped limit) ++ gap ++ p.wrapped limit ++
      ps.flatMap fun q => "" :: "" :: q.wrapped limit

end EntityGraph.Handlers
