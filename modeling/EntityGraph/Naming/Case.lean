/-!
# Words and letter cases

A name in any casing is a sequence of words.  Everything that is not an ASCII letter or digit
divides words, and so do some changes of class inside a run of letters and digits: a capital after a
small letter or a digit, and the last capital of a run that small letters follow.  Two divisions are
in use: `words` also divides letters from digits, `segments` does not.

* `words`: the words of a name in small letters;
* `snakeCase`, `pascalCase`, `camelCase`: the three casings of a name.
-/

namespace EntityGraph.Naming

/-- An ASCII letter or digit, the only characters that words are made of. -/
def isWordChar (c : Char) : Bool := c.isAlphanum

/-- Where one run of letters and digits is divided: between `a` and `b`, when `next` follows. -/
abbrev Division := (a b : Char) → (next : Option Char) → Bool

/-- A capital starts a segment after a small letter or a digit, and after a capital if a small
letter follows it. -/
def startsSegment : Division := fun a b next =>
  b.isUpper && (a.isLower || a.isDigit || (a.isUpper && next.any Char.isLower))

/-- Besides the starts of segments, a word starts wherever letters meet digits. -/
def startsWord : Division := fun a b next =>
  startsSegment a b next || (a.isDigit != b.isDigit)

/-- The runs of a name under a division.  A run is never empty, and together the runs hold the
letters and digits of the name in their order. -/
def runs (division : Division) : List Char → List (List Char)
  | [] => []
  | c :: rest =>
    if isWordChar c then
      match rest with
      | [] => [[c]]
      | d :: more =>
        if isWordChar d && !division c d more.head? then
          match runs division rest with
          | run :: others => (c :: run) :: others
          | [] => [[c]]
        else [c] :: runs division rest
    else runs division rest

def lower (cs : List Char) : List Char := cs.map Char.toLower

def capitalize : List Char → List Char
  | [] => []
  | c :: cs => c.toUpper :: cs

def words (name : List Char) : List (List Char) := (runs startsWord name).map lower

def segments (name : List Char) : List (List Char) := (runs startsSegment name).map lower

/-- Words joined by single underscores. -/
def underscored : List (List Char) → List Char
  | [] => []
  | [w] => w
  | w :: ws => w ++ '_' :: underscored ws

def snakeCase (name : String) : String := String.ofList (underscored (segments name.toList))

/-- The words of a name, each with a capital. -/
def pascalChars (name : List Char) : List Char := ((words name).map capitalize).flatten

def pascalCase (name : String) : String := String.ofList (pascalChars name.toList)

/-- The words of a name, each but the first with a capital. -/
def camelChars (name : List Char) : List Char :=
  match words name with
  | [] => []
  | w :: ws => w ++ (ws.map capitalize).flatten

/-- The words of a name, each but the first with a capital. -/
def camelCase (name : String) : String := String.ofList (camelChars name.toList)

end EntityGraph.Naming
