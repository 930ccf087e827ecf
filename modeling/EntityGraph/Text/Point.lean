/-!
# Code points

A text is a row of characters, but an escape can also name a code point that is no character: one
half of a pair of numbers that stands for a character where units have sixteen bits.  A row of code
points holds such halves as they are.

* `Point`: a code point;
* `Point.ofCode`: the code point with a number;
* `joined`: the characters of a row in which adjacent halves make a character.
-/

namespace EntityGraph.Text

/-- A code point: a character, or one half of a pair by its number. -/
inductive Point where
  | char (c : Char)
  | half (code : Nat)
deriving DecidableEq, Repr, Inhabited

/-- The numbers of the first halves of pairs. -/
def isFirstHalf (code : Nat) : Bool := 0xD800 ≤ code && code ≤ 0xDBFF

/-- The numbers of the second halves of pairs. -/
def isSecondHalf (code : Nat) : Bool := 0xDC00 ≤ code && code ≤ 0xDFFF

def pairChar (first second : Nat) : Char :=
  Char.ofNat (0x10000 + (first - 0xD800) * 0x400 + (second - 0xDC00))

namespace Point

def ofCode (code : Nat) : Point :=
  if isFirstHalf code || isSecondHalf code then half code else char (Char.ofNat code)

def code : Point → Nat
  | char c => c.toNat
  | half code => code

def char? : Point → Option Char
  | char c => some c
  | half _ => none

/-- A code point as a character; the replacement character stands for a half. -/
def shown : Point → Char
  | char c => c
  | half _ => '\uFFFD'

end Point

/-- The characters of a row of code points, if all of them are characters. -/
def chars? (ps : List Point) : Option (List Char) := ps.mapM Point.char?

/-- The characters of a row in which adjacent halves make a character; the replacement character
stands for a half on its own. -/
def joined : List Point → List Char
  | [] => []
  | .half first :: .half second :: rest =>
    if isFirstHalf first && isSecondHalf second then pairChar first second :: joined rest
    else '\uFFFD' :: joined (.half second :: rest)
  | p :: rest => p.shown :: joined rest

end EntityGraph.Text
