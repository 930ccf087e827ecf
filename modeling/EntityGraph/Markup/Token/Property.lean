import EntityGraph.Markup.Token
import EntityGraph.Text.Decoding

/-!
# Names, tags and directives

How the tokens that spell a name are read: anchors and aliases, tags, and the directives before a
document.  Each reading starts at the indicator of its token and gives the mark after it.

* `readName`: an anchor or an alias;
* `readTag`: a tag;
* `readDirective`: a directive.
-/

namespace EntityGraph.Markup

def isNameChar (c : Char) : Bool := c.isAlphanum || c = '-' || c = '_'

def isHex (c : Char) : Bool := c.isDigit || ('a' ≤ c && c ≤ 'f') || ('A' ≤ c && c ≤ 'F')

def hexDigitValue (c : Char) : Nat :=
  if c.isDigit then c.toNat - 48 else if c.isLower then c.toNat - 87 else c.toNat - 55

def hexValue (cs : List Char) : Nat := cs.foldl (fun n c => n * 16 + hexDigitValue c) 0

def decimalValue (cs : List Char) : Nat := cs.foldl (fun n c => n * 10 + (c.toNat - 48)) 0

/-- The first of some characters that is no hexadecimal digit; the end of the text is none. -/
def nonHex? (m : Mark) : (count : Nat) → Option (Option Char)
  | 0 => none
  | n + 1 => if m.peek.any isHex then nonHex? m.next n else some m.peek

/-- The article and the noun of a token that spells a name. -/
def nameActivity (isAlias : Bool) : String :=
  "while scanning an " ++ if isAlias then "alias" else "anchor"

/-- What a name lacks where it has no characters or is followed by a wrong one. -/
def alphanumeric : String := "alphabetic or numeric character"

def mayFollowName (c : Option Char) : Bool :=
  endsWord c || c.any fun c => "?:,]\x7d%@`".toList.contains c

/-- The name of an anchor or an alias, after its indicator. -/
def readName (isAlias : Bool) (m : Mark) : Except Failure (String × Mark) := do
  let (cs, rest) := m.next.span isNameChar
  if cs.isEmpty || !mayFollowName rest.peek then
    refuse (nameActivity isAlias) m (butFound alphanumeric rest.peek) rest
  return (String.ofList cs, rest)

/-! ## Tags -/

/-- A character of a URI other than a letter or a digit. -/
def uriMarks : List Char := "-;/?:@&=+$,_.!~*'()[]%".toList

def isUriChar (c : Char) : Bool := c.isAlphanum || uriMarks.contains c

/-- The bytes of a row of escapes, each a percent sign with two hexadecimal digits. -/
def uriBytes (activity : String) (since : Mark) :
    (fuel : Nat) → Mark → Except Failure (List Nat × Mark)
  | 0, m => .ok ([], m)
  | fuel + 1, m =>
    if m.peek ≠ some '%' then .ok ([], m)
    else
      match nonHex? m.next 2 with
      | some c =>
        refuse activity since (butFound "URI escape sequence of 2 hexadecimal numbers" c) m.next
      | none => do
        let (bytes, rest) ← uriBytes activity since fuel (m.skip 3)
        return (hexValue (m.next.after.take 2) :: bytes, rest)

def uriEscapes (activity : String) (since m : Mark) : Except Failure (List Char × Mark) := do
  let (bytes, rest) ← uriBytes activity since m.left m
  match Text.decodeUtf8 bytes with
  | .ok cs => return (cs, rest)
  | .error reason => refuse activity since reason m

def uriChars (activity : String) (since : Mark) :
    (fuel : Nat) → Mark → Except Failure (List Char × Mark)
  | 0, m => .ok ([], m)
  | fuel + 1, m =>
    match m.peek with
    | none => .ok ([], m)
    | some c =>
      if c = '%' then do
        let (cs, rest) ← uriEscapes activity since m
        let (more, rest) ← uriChars activity since fuel rest
        return (cs ++ more, rest)
      else if isUriChar c then do
        let (more, rest) ← uriChars activity since fuel m.next
        return (c :: more, rest)
      else .ok ([], m)

/-- A URI in a tag or a directive, which must not be empty. -/
def readUri (noun : String) (since m : Mark) : Except Failure (String × Mark) := do
  let (cs, rest) ← uriChars ("while scanning a " ++ noun) since m.left m
  if rest.index = m.index then
    refuse ("while parsing a " ++ noun) since (butFound "URI" rest.peek) rest
  return (String.ofList cs, rest)

/-- A tag handle: one exclamation mark, or two with a name between them. -/
def readHandle (noun : String) (since m : Mark) : Except Failure (String × Mark) := do
  let activity := "while scanning a " ++ noun
  if m.peek ≠ some '!' then
    refuse activity since (butFound "'!'" m.peek) m
  if m.peekAt 1 = some ' ' then return ("!", m.next)
  let (cs, rest) := m.next.span isNameChar
  if rest.peek ≠ some '!' then
    refuse activity since (butFound "'!'" rest.peek) rest
  return (String.ofList ('!' :: cs ++ ['!']), rest.next)

/-- A tag that has another exclamation mark after its first one. -/
def hasHandle (m : Mark) : Bool :=
  ((m.next.after.takeWhile fun c => !endsItem (some c)).contains '!')

/-- The handle and the suffix of a tag, without what must follow it. -/
def readTagParts (m : Mark) : Except Failure (Symbol × Mark) := do
  if m.peekAt 1 = some '<' then
    let (suffix, rest) ← readUri "tag" m (m.skip 2)
    if rest.peek ≠ some '>' then
      refuse "while parsing a tag" m (butFound "'>'" rest.peek) rest
    return (.tag none suffix, rest.next)
  else if endsWord (m.peekAt 1) then return (.tag none "!", m.next)
  else
    let (handle, rest) ← if hasHandle m then readHandle "tag" m m else pure ("!", m.next)
    let (suffix, rest) ← readUri "tag" m rest
    return (.tag (some handle) suffix, rest)

def readTag (m : Mark) : Except Failure (Symbol × Mark) := do
  let (symbol, rest) ← readTagParts m
  if !endsItem rest.peek then
    refuse "while scanning a tag" m (butFound "' '" rest.peek) rest
  return (symbol, rest)

/-! ## Directives -/

def directiveActivity : String := "while scanning a directive"

def isSpaceChar (c : Char) : Bool := c = ' '

def toLineEnd (m : Mark) : Mark := m.skipWhile fun c => !isBreak c

def skipComment (m : Mark) : Mark :=
  let m := m.skipWhile isSpaceChar
  if m.peek = some '#' then toLineEnd m else m

/-- The rest of a line, which may hold a comment only, and its break. -/
def endLine (activity : String) (since m : Mark) : Except Failure Mark := do
  let rest := skipComment m
  if !endsLine rest.peek then
    refuse activity since (butFound "a comment or a line break" rest.peek) rest
  return rest.lineBreak.2

def directiveName (since m : Mark) : Except Failure (String × Mark) := do
  let (cs, rest) := m.span isNameChar
  if cs.isEmpty || !endsItem rest.peek then
    refuse directiveActivity since (butFound alphanumeric rest.peek) rest
  return (String.ofList cs, rest)

def versionNumber (since m : Mark) : Except Failure (Nat × Mark) := do
  let (cs, rest) := m.span Char.isDigit
  if cs.isEmpty then
    refuse directiveActivity since (butFound "a digit" rest.peek) rest
  if cs.length > Value.mostDigits then
    throw (tooManyDigits cs.length)
  return (decimalValue cs, rest)

def readVersion (since m : Mark) : Except Failure (Directive × Mark) := do
  let (major, rest) ← versionNumber since (m.skipWhile isSpaceChar)
  if rest.peek ≠ some '.' then
    refuse directiveActivity since (butFound "a digit or '.'" rest.peek) rest
  let (minor, rest) ← versionNumber since rest.next
  if !endsItem rest.peek then
    refuse directiveActivity since (butFound "a digit or ' '" rest.peek) rest
  return (.version major minor, rest)

def readTagDirective (since m : Mark) : Except Failure (Directive × Mark) := do
  let (handle, rest) ← readHandle "directive" since (m.skipWhile isSpaceChar)
  if rest.peek ≠ some ' ' then
    refuse directiveActivity since (butFound "' '" rest.peek) rest
  let (uri, rest) ← readUri "directive" since (rest.skipWhile isSpaceChar)
  if !endsItem rest.peek then
    refuse directiveActivity since (butFound "' '" rest.peek) rest
  return (.tag handle uri, rest)

/-- A directive with the mark after it and the mark after its line. -/
def readDirective (m : Mark) : Except Failure (Directive × Mark × Mark) := do
  let (name, rest) ← directiveName m m.next
  let (directive, stop) ←
    if name = "YAML" then readVersion m rest
    else if name = "TAG" then readTagDirective m rest
    else pure (.unknown name, rest)
  let rest := match directive with
    | .unknown _ => toLineEnd stop
    | _ => stop
  return (directive, stop, ← endLine directiveActivity m rest)

end EntityGraph.Markup
