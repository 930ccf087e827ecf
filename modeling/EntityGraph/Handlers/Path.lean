import EntityGraph.Handlers.Source
import EntityGraph.Text.Class

/-!
# Well-formed parts of the module

Class names and module paths come from settings and from names of entities, so a contribution need
not be well-formed source.  A module path is a row of dots followed by identifiers with dots between
them; blanks may surround the dots and mean nothing.

* `isIdentifier`: a name that may be bound;
* `settlePath?`: a well-formed path without its blanks, `none` for any other text;
* `Piece.isWellFormed`: a contribution whose names and paths are all well-formed.
-/

namespace EntityGraph.Handlers

def reservedWords : List String := [
  "and", "as", "assert", "break", "class", "continue", "def", "del", "elif", "else", "except",
  "finally", "for", "from", "global", "if", "import", "in", "is", "lambda", "nonlocal", "not", "or",
  "pass", "raise", "return", "try", "while", "with", "yield"]

/-- A character that may start a name.  Beyond ASCII every character but a digit is taken as a
letter. -/
def startsName (c : Char) : Bool :=
  c.isAlpha || c = '_' || (c.toNat ≥ 0x80 && !Text.isAnyDigit c)

def continuesName (c : Char) : Bool := c.isAlphanum || c = '_' || c.toNat ≥ 0x80

def isIdentifier (name : String) : Bool :=
  match name.toList with
  | [] => false
  | c :: cs => startsName c && cs.all continuesName && !reservedWords.contains name

/-! ## Paths -/

/-- A token of a path. -/
inductive PathToken where
  | dot
  | name (cs : List Char)
deriving DecidableEq, Repr

def isPathBlank (c : Char) : Bool := c = ' ' || c = '\t' || c = '\x0c'

/-- The tokens of a path; `current` is the name being read. -/
def pathTokens (current : List Char) : List Char → List PathToken
  | [] => flush []
  | c :: cs =>
    if c = '.' then flush (.dot :: pathTokens [] cs)
    else if isPathBlank c then flush (pathTokens [] cs)
    else pathTokens (c :: current) cs
where
  /-- The name that has been read, before other tokens. -/
  flush (rest : List PathToken) : List PathToken :=
    if current.isEmpty then rest else .name current.reverse :: rest

def isDottedName : List PathToken → Bool
  | [.name cs] => isIdentifier (String.ofList cs)
  | .name cs :: .dot :: rest => isIdentifier (String.ofList cs) && isDottedName rest
  | _ => false

def PathToken.chars : PathToken → List Char
  | .dot => ['.']
  | .name cs => cs

/-- A well-formed path without its blanks. -/
def settlePath? (path : String) : Option String :=
  let tokens := pathTokens [] path.toList
  let names := tokens.dropWhile (· = .dot)
  if isDottedName names || (names.isEmpty && !tokens.isEmpty) then
    some (String.ofList (tokens.flatMap PathToken.chars))
  else none

/-! ## Contributions -/

/-- A text that may stand between double quotes as it is. -/
def isQuotable : List Char → Bool
  | [] => true
  | ['\\'] => false
  | '\\' :: _ :: cs => isQuotable cs
  | c :: cs => c ≠ '"' && c ≠ '\n' && c ≠ '\r' && isQuotable cs

def Import.isWellFormed (i : Import) : Bool := (settlePath? i.path).isSome && isIdentifier i.name

/-- Handlers whose names may be bound. -/
def HandlerClass.isWellFormed (c : HandlerClass) : Bool :=
  [c.name, c.service, c.holder].all isIdentifier && c.methods.all (fun m => isIdentifier m.name) &&
    c.bindings.all fun b => isQuotable b.field.toList

def Piece.isWellFormed (p : Piece) : Bool :=
  p.imports.all Import.isWellFormed && p.handlers.isWellFormed

end EntityGraph.Handlers
