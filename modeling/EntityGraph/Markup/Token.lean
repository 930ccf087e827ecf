import EntityGraph.Markup.Mark

/-!
# Tokens

The tokens of a text: indicators, scalars, node properties, directives, and the starts and ends of
block collections that indentation implies.

* `Symbol`, `Token`: a token and where it stands;
* `Symbol.label`: the name of a token in problems.
-/

namespace EntityGraph.Markup

/-- A directive before a document; one of an unknown name means nothing. -/
inductive Directive where
  | version (major minor : Nat)
  | tag (handle uri : String)
  | unknown (name : String)
deriving Repr, Inhabited

/-- What a token is. -/
inductive Symbol where
  | streamEnd
  | directive (d : Directive)
  | documentStart
  | documentEnd
  | blockSequence
  | blockMapping
  | blockEnd
  | openSequence
  | closeSequence
  | openMapping
  | closeMapping
  | entry
  | comma
  | key
  | value
  | reference (name : String)
  | anchor (name : String)
  | tag (handle : Option String) (suffix : String)
  | scalar (points : List Text.Point) (isPlain : Bool)
deriving Repr, Inhabited

def Symbol.label : Symbol → String
  | streamEnd => "<stream end>"
  | directive _ => "<directive>"
  | documentStart => "<document start>"
  | documentEnd => "<document end>"
  | blockSequence => "<block sequence start>"
  | blockMapping => "<block mapping start>"
  | blockEnd => "<block end>"
  | openSequence => "["
  | closeSequence => "]"
  | openMapping => "\x7b"
  | closeMapping => "\x7d"
  | entry => "-"
  | comma => ","
  | key => "?"
  | value => ":"
  | reference _ => "<alias>"
  | anchor _ => "<anchor>"
  | tag .. => "<tag>"
  | scalar .. => "<scalar>"

/-- A token with the marks before and after it. -/
structure Token where
  symbol : Symbol
  start : Mark
  stop : Mark
deriving Repr, Inhabited

def Token.shown (t : Token) : String := Literal.quoted t.symbol.label

end EntityGraph.Markup
