import EntityGraph.Markup.Token.Property
import EntityGraph.Proofs.Scanning
import EntityGraph.Schema.Name

/-!
# Tokens of executable documents

The lexical grammar of GraphQL, in its edition of October 2021.  A text is read from the left, and
every token is as long as it can be.  Blanks, line breaks, commas and comments may stand between
tokens.

* `Mark`, `Token`: the tokens, and how they are spelled;
* `lexeme?`: the token at the start of a text;
* `scan`: the tokens of a text, if it is made of tokens and of what may stand between them;
* `Scans`: a text that yields its tokens wherever no name goes on after it.
-/

namespace EntityGraph.Executable

open Markup (isHex)
open Schema (isNameStart isNamePart)

/-- The punctuators. -/
inductive Mark where
  | bang
  | dollar
  | ampersand
  | openRound
  | closeRound
  | spread
  | colon
  | equals
  | atSign
  | openSquare
  | closeSquare
  | openCurly
  | bar
  | closeCurly
deriving DecidableEq

def Mark.all : List Mark := [.bang, .dollar, .ampersand, .openRound, .closeRound, .spread, .colon,
  .equals, .atSign, .openSquare, .closeSquare, .openCurly, .bar, .closeCurly]

def Mark.chars : Mark → List Char
  | bang => ['!']
  | dollar => ['$']
  | ampersand => ['&']
  | openRound => ['(']
  | closeRound => [')']
  | spread => ['.', '.', '.']
  | colon => [':']
  | equals => ['=']
  | atSign => ['@']
  | openSquare => ['[']
  | closeSquare => [']']
  | openCurly => ['\x7b']
  | bar => ['|']
  | closeCurly => ['\x7d']

/-- A token.  Names, numbers and strings hold their text, strings without their quotes. -/
inductive Token where
  | mark (m : Mark)
  | name (text : String)
  | int (text : String)
  | float (text : String)
  | string (text : String)
  | block (text : String)
deriving DecidableEq

def Token.chars : Token → List Char
  | mark m => m.chars
  | name text | int text | float text => text.toList
  | string text => '"' :: text.toList ++ ['"']
  | block text => ['"', '"', '"'] ++ text.toList ++ ['"', '"', '"']

/-! ## Characters -/

def isLineEnd (c : Char) : Bool := c = '\n' || c = '\r'

/-- The characters that may stand in comments and strings. -/
def isSource (c : Char) : Bool :=
  c = '\t' || isLineEnd c || (0x20 ≤ c.toNat && c.toNat ≤ 0xffff)

/-- A character that means nothing between tokens: a blank, a line break, a comma or the mark of the
byte order. -/
def isIgnored (c : Char) : Bool := c = ' ' || c = '\t' || isLineEnd c || c = ',' || c = '\ufeff'

/-! ## Numbers -/

/-- The first character of a text, if it is one of these signs. -/
def signOf (signs : List Char) : List Char → List Char
  | c :: _ => if c ∈ signs then [c] else []
  | [] => []

/-- The digits at the start of a text, of which there is one at least. -/
def digits? (cs : List Char) : Option (List Char) :=
  let ds := cs.takeWhile Char.isDigit
  if ds.isEmpty then none else some ds

/-- A point with the digits after it; nothing if there is no point. -/
def fraction? : List Char → Option (List Char)
  | '.' :: cs => (digits? cs).map ('.' :: ·)
  | _ => some []

/-- The letter, the sign and the digits of an exponent; nothing if there is no such letter. -/
def exponent? : List Char → Option (List Char)
  | c :: cs =>
    if c = 'e' || c = 'E' then
      let sign := signOf ['+', '-'] cs
      (digits? (cs.drop sign.length)).map fun ds => c :: sign ++ ds
    else some []
  | [] => some []

/-- The number at the start of a text.  No zero stands before its other digits, and neither a name
nor a point follows it. -/
def number? (cs : List Char) : Option Token := do
  let sign := signOf ['-'] cs
  let whole ← digits? (cs.drop sign.length)
  let fraction ← fraction? (cs.drop (sign ++ whole).length)
  let exponent ← exponent? (cs.drop (sign ++ whole ++ fraction).length)
  let text := sign ++ whole ++ fraction ++ exponent
  if whole.head? = some '0' && whole ≠ ['0'] then none
  else if (cs.drop text.length).head?.any fun c => isNameStart c || c = '.' then none
  else if fraction.isEmpty && exponent.isEmpty then some (.int (String.ofList text))
  else some (.float (String.ofList text))

/-! ## Strings -/

/-- The characters of a string in one line, up to its closing quote. -/
def string? : List Char → Option (List Char)
  | '"' :: _ => some []
  | '\\' :: 'u' :: a :: b :: c :: d :: rest =>
    if [a, b, c, d].all isHex then (string? rest).map ('\\' :: 'u' :: a :: b :: c :: d :: ·)
    else none
  | '\\' :: c :: rest =>
    if ['"', '\\', '/', 'b', 'f', 'n', 'r', 't'].contains c then
      (string? rest).map ('\\' :: c :: ·)
    else none
  | c :: rest =>
    if isSource c && !isLineEnd c && c ≠ '\\' then (string? rest).map (c :: ·) else none
  | [] => none

/-- The characters of a block string, up to its closing quotes. -/
def block? : List Char → Option (List Char)
  | '"' :: '"' :: '"' :: _ => some []
  | '\\' :: '"' :: '"' :: '"' :: rest => (block? rest).map ('\\' :: '"' :: '"' :: '"' :: ·)
  | c :: rest => if isSource c then (block? rest).map (c :: ·) else none
  | [] => none

/-- The string whose first quote is read. -/
def quoted? : List Char → Option Token
  | '"' :: '"' :: rest => (block? rest).map fun cs => .block (String.ofList cs)
  | rest => (string? rest).map fun cs => .string (String.ofList cs)

/-! ## Texts -/

/-- The punctuator at the start of a text. -/
def mark? (cs : List Char) : Option Mark := Mark.all.find? fun m => m.chars.isPrefixOf cs

/-- The token at the start of a text that starts with this character. -/
def lexeme? (c : Char) (cs : List Char) : Option Token :=
  if isNameStart c then some (.name (String.ofList (c :: cs.takeWhile isNamePart)))
  else if c = '"' then quoted? cs
  else
    match mark? (c :: cs) with
    | some m => some (.mark m)
    | none => number? (c :: cs)

/-- What stands at the start of a text: something that means nothing, or a token. -/
def read? : Scanning.Reader Token := fun c cs =>
  if isIgnored c then some ([], 0)
  else if c = '#' then some ([], (cs.takeWhile fun c => isSource c && !isLineEnd c).length)
  else (lexeme? c cs).map fun t => ([t], t.chars.length - 1)

/-- The tokens of a text, if it is made of tokens and of what may stand between them. -/
def scan (cs : List Char) : Option (List Token) := Scanning.scan read? cs

/-! ## Texts with their tokens -/

/-- A text that no name goes on into. -/
abbrev Ends (cs : List Char) : Prop := Scanning.Ends isNamePart cs

/-- A text that yields these tokens before everything that no name goes on into. -/
abbrev Scans (cs : List Char) (ts : List Token) : Prop := Scanning.Scans read? isNamePart cs ts

/-- A name: a letter or an underscore, then letters, digits and underscores. -/
def isName : List Char → Bool
  | [] => false
  | c :: cs => isNameStart c && cs.all isNamePart

theorem read?_lexeme {c : Char} {cs : List Char} (hIgnored : isIgnored c = false) (hComment : c ≠ '#')
    {t : Token} (h : lexeme? c cs = some t) : read? c cs = some ([t], t.chars.length - 1) := by
  rw [read?, if_neg (by simp [hIgnored]), if_neg hComment, h]
  rfl

namespace Scans

variable {cs : List Char} {ts : List Token}

theorem blank {c : Char} (h : isIgnored c = true) (hc : Scans cs ts) : Scans (c :: cs) ts :=
  hc.cons (w := []) [] fun rest _ => by rw [read?, if_pos h]; rfl

theorem mark {m : Mark} {c : Char} (h : m.chars = [c]) (hc : Scans cs ts) :
    Scans (c :: cs) (.mark m :: ts) := by
  refine hc.cons (w := []) [.mark m] fun rest _ => ?_
  cases m <;> cases h <;> exact read?_lexeme (by decide) (by decide) rfl

theorem spread (hc : Scans cs ts) : Scans ('.' :: '.' :: '.' :: cs) (.mark .spread :: ts) :=
  hc.cons (w := ['.', '.']) [.mark .spread] fun rest _ =>
    read?_lexeme (t := .mark .spread) (by decide) (by decide) rfl

theorem name {name : String} (h : isName name.toList = true) (hEnds : Ends cs) (hc : Scans cs ts) :
    Scans (name.toList ++ cs) (.name name :: ts) := by
  unfold isName at h
  split at h
  · cases h
  · rename_i c w hChars
    obtain ⟨hStart, hParts⟩ := Bool.and_eq_true_iff.mp h
    have hOther : isIgnored c = false ∧ c ≠ '#' := by
      refine ⟨Bool.eq_false_iff.mpr fun hIgnored => ?_, by rintro rfl; cases hStart⟩
      simp only [isIgnored, isLineEnd, Bool.or_eq_true, decide_eq_true_eq] at hIgnored
      rcases hIgnored with (((rfl | rfl) | rfl | rfl) | rfl) | rfl <;> cases hStart
    rw [hChars]
    refine hc.cons [.name name] fun rest hRest => ?_
    have hTaken := (hEnds.append hRest).takeWhile (List.all_eq_true.mp hParts)
    have hToken : lexeme? c (w ++ (cs ++ rest)) = some (.name name) := by
      rw [lexeme?, if_pos hStart, hTaken, ← hChars, String.ofList_toList]
    rw [read?_lexeme hOther.1 hOther.2 hToken]
    simp [Token.chars, hChars]

/-- A name and the blank after it. -/
theorem word {name : String} (h : isName name.toList = true) (hc : Scans cs ts) :
    Scans (name.toList ++ ' ' :: cs) (.name name :: ts) :=
  .name h (.cons rfl _) (hc.blank rfl)

theorem single {n : String} (h : isName n.toList = true) : Scans n.toList [.name n] := by
  simpa using Scans.name h .nil .nil

end Scans

end EntityGraph.Executable
