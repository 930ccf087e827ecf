import EntityGraph.Value

/-!
# JSON documents

Reads a JSON document as a value.  Members keep their order, and a repeated member keeps its first
place with its last value.  A number with a fraction or an exponent is a binary number, any other
number an integer of any size.  Infinities and the undefined number are written as words.

* `Json.parse?`: the value of a document, or `none` if the text is no document.
-/

namespace EntityGraph.Json

def isSpace (c : Char) : Bool := c = ' ' || c = '\t' || c = '\n' || c = '\r'

def skip (cs : List Char) : List Char := cs.dropWhile isSpace

def hexValue? (c : Char) : Option Nat :=
  if '0' ≤ c ∧ c ≤ '9' then some (c.toNat - 48)
  else if 'a' ≤ c ∧ c ≤ 'f' then some (c.toNat - 87)
  else if 'A' ≤ c ∧ c ≤ 'F' then some (c.toNat - 55)
  else none

def unit? : List Char → Option (Nat × List Char)
  | a :: b :: c :: d :: rest => do
    let a ← hexValue? a
    let b ← hexValue? b
    let c ← hexValue? c
    let d ← hexValue? d
    return (((a * 16 + b) * 16 + c) * 16 + d, rest)
  | _ => none

/-- A character from its code point; the code point of a lone half of a pair gives the replacement
character. -/
def charOf (n : Nat) : Char :=
  if n.isValidChar then Char.ofNat n else Char.ofNat 0xFFFD

/-- The character that an escape names, after its backslash.  Two code units of a pair give one
character. -/
def escape? : List Char → Option (Char × List Char)
  | '"' :: rest => some ('"', rest)
  | '\\' :: rest => some ('\\', rest)
  | '/' :: rest => some ('/', rest)
  | 'b' :: rest => some (Char.ofNat 8, rest)
  | 'f' :: rest => some (Char.ofNat 12, rest)
  | 'n' :: rest => some ('\n', rest)
  | 'r' :: rest => some ('\r', rest)
  | 't' :: rest => some ('\t', rest)
  | 'u' :: rest => do
    let (n, rest) ← unit? rest
    match rest with
    | '\\' :: 'u' :: more =>
      match unit? more with
      | some (m, after) =>
        if 0xD800 ≤ n ∧ n < 0xDC00 ∧ 0xDC00 ≤ m ∧ m < 0xE000 then
          some (charOf (0x10000 + (n - 0xD800) * 0x400 + (m - 0xDC00)), after)
        else some (charOf n, rest)
      | none => some (charOf n, rest)
    | _ => some (charOf n, rest)
  | _ => none

/-- The characters of a string after its opening quote, and what follows the closing one. -/
def string? : Nat → List Char → List Char → Option (String × List Char)
  | 0, _, _ => none
  | _ + 1, _, [] => none
  | _ + 1, seen, '"' :: rest => some (String.ofList seen.reverse, rest)
  | fuel + 1, seen, '\\' :: rest =>
    match escape? rest with
    | some (c, rest) => string? fuel (c :: seen) rest
    | none => none
  | fuel + 1, seen, c :: rest =>
    if c.toNat < 0x20 then none else string? fuel (c :: seen) rest

def natOf (ds : List Char) : Nat := ds.foldl (fun n c => n * 10 + (c.toNat - 48)) 0

/-- A leading run of digits, which must not be empty. -/
def digits? (cs : List Char) : Option (List Char × List Char) :=
  let ds := cs.takeWhile Char.isDigit
  if ds.isEmpty then none else some (ds, cs.dropWhile Char.isDigit)

/-- A number.  A whole part of several digits does not start with a zero. -/
def number? (cs : List Char) : Option (Value × List Char) := do
  let (negative, cs) := match cs with
    | '-' :: rest => (true, rest)
    | _ => (false, cs)
  let (whole, cs) ← digits? cs
  if whole.length > 1 && whole.head? == some '0' then none
  let (fraction, cs) ← match cs with
    | '.' :: rest => do
      let (ds, rest) ← digits? rest
      pure (some ds, rest)
    | _ => pure (none, cs)
  let (exponent, cs) ← match cs with
    | e :: rest =>
      if e = 'e' ∨ e = 'E' then do
        let (minus, rest) := match rest with
          | '-' :: rest => (true, rest)
          | '+' :: rest => (false, rest)
          | _ => (false, rest)
        let (ds, rest) ← digits? rest
        let n : Int := natOf ds
        pure (some (if minus then -n else n), rest)
      else pure (none, cs)
    | [] => pure (none, cs)
  match fraction, exponent with
  | none, none =>
    let n : Int := natOf whole
    return (.int (if negative then -n else n), cs)
  | _, _ =>
    let places := fraction.getD []
    let value := Binary64.ofDecimal negative (natOf (whole ++ places))
      (exponent.getD 0 - (places.length : Int))
    return (.float value, cs)

/-- A word of the language. -/
def word? (w : List Char) (v : Value) (cs : List Char) : Option (Value × List Char) :=
  if cs.take w.length = w then some (v, cs.drop w.length) else none

mutual

/-- A value and what follows it; no string is longer than `bound`. -/
def value? (bound : Nat) : Nat → List Char → Option (Value × List Char)
  | 0, _ => none
  | fuel + 1, cs =>
    match skip cs with
    | '\x7b' :: rest =>
      match skip rest with
      | '\x7d' :: rest => some (.map [], rest)
      | rest => (members? bound fuel [] rest).map fun r => (.map r.1, r.2)
    | '[' :: rest =>
      match skip rest with
      | ']' :: rest => some (.list [], rest)
      | rest => (items? bound fuel [] rest).map fun r => (.list r.1, r.2)
    | '"' :: rest => (string? bound [] rest).map fun r => (.text r.1, r.2)
    | 't' :: rest => word? ['r', 'u', 'e'] (.bool true) rest
    | 'f' :: rest => word? ['a', 'l', 's', 'e'] (.bool false) rest
    | 'n' :: rest => word? ['u', 'l', 'l'] .null rest
    | 'N' :: rest => word? ['a', 'N'] (.float .nan) rest
    | 'I' :: rest => word? "nfinity".toList (.float (.infinite false)) rest
    | '-' :: 'I' :: rest => word? "nfinity".toList (.float (.infinite true)) rest
    | cs => number? cs

/-- The items of an array after the bracket or a comma. -/
def items? (bound : Nat) : Nat → List Value → List Char → Option (List Value × List Char)
  | 0, _, _ => none
  | fuel + 1, seen, cs => do
    let (v, cs) ← value? bound fuel cs
    match skip cs with
    | ',' :: rest => items? bound fuel (v :: seen) rest
    | ']' :: rest => some ((v :: seen).reverse, rest)
    | _ => none

/-- The members of an object after the brace or a comma. -/
def members? (bound : Nat) :
    Nat → List (Value × Value) → List Char → Option (List (Value × Value) × List Char)
  | 0, _, _ => none
  | fuel + 1, seen, cs => do
    match skip cs with
    | '"' :: rest =>
      let (key, cs) ← string? bound [] rest
      match skip cs with
      | ':' :: rest =>
        let (v, cs) ← value? bound fuel rest
        let seen := Value.put (.text key) v seen
        match skip cs with
        | ',' :: rest => members? bound fuel seen rest
        | '\x7d' :: rest => some (seen, rest)
        | _ => none
      | _ => none
    | _ => none

end

def parse? (s : String) : Option Value :=
  let cs := s.toList
  let bound := cs.length + 1
  match value? bound bound cs with
  | some (v, rest) => if (skip rest).isEmpty then some v else none
  | none => none

end EntityGraph.Json
