import EntityGraph.Value.Literal

/-!
# Bytes as text

UTF-8 and base64 readings of bytes, with the reasons for which they are refused.

* `decodeUtf8`: the text that bytes encode;
* `decodeBase64`: the bytes that a text encodes, where other characters count for nothing.
-/

namespace EntityGraph.Text

/-! ## UTF-8 -/

/-- A byte that starts a character: how many bytes follow it, the bits that it gives, and the range
of the byte after it. -/
def leadByte? (b : Nat) : Option (Nat × Nat × Nat × Nat) :=
  if b < 0x80 then some (0, b, 0, 0)
  else if b < 0xC2 then none
  else if b < 0xE0 then some (1, b - 0xC0, 0x80, 0xBF)
  else if b < 0xF0 then
    some (2, b - 0xE0, if b = 0xE0 then 0xA0 else 0x80, if b = 0xED then 0x9F else 0xBF)
  else if b < 0xF5 then
    some (3, b - 0xF0, if b = 0xF0 then 0x90 else 0x80, if b = 0xF4 then 0x8F else 0xBF)
  else none

/-- A reason to refuse bytes, with the number of bytes at fault. -/
abbrev ByteFault := Nat × String

/-- The character made of the bits so far and `more` further bytes, the first of them within a
range; `taken` bytes have been read. -/
def followBytes (taken bits low high : Nat) :
    (more : Nat) → List Nat → Except ByteFault (Char × List Nat)
  | 0, bs => .ok (Char.ofNat bits, bs)
  | _ + 1, [] => .error (taken, "unexpected end of data")
  | more + 1, b :: bs =>
    if low ≤ b && b ≤ high then
      followBytes (taken + 1) (bits * 64 + (b - 0x80)) 0x80 0xBF more bs
    else .error (taken, "invalid continuation byte")

def firstChar (b : Nat) (bs : List Nat) : Except ByteFault (Char × List Nat) :=
  match leadByte? b with
  | none => .error (1, "invalid start byte")
  | some (more, bits, low, high) => followBytes 1 bits low high more bs

def byteFaultText (position : Nat) (first : Nat) (fault : ByteFault) : String :=
  let place :=
    if fault.1 = 1 then
      "byte 0x" ++ String.ofList (Literal.hex 2 first) ++ " in position " ++ toString position
    else "bytes in position " ++ toString position ++ "-" ++ toString (position + fault.1 - 1)
  "'utf-8' codec can't decode " ++ place ++ ": " ++ fault.2

def decodeFrom : (fuel position : Nat) → List Nat → Except String (List Char)
  | 0, _, _ => .ok []
  | _, _, [] => .ok []
  | fuel + 1, position, b :: bs =>
    match firstChar b bs with
    | .error fault => .error (byteFaultText position b fault)
    | .ok (c, rest) =>
      (decodeFrom fuel (position + (bs.length + 1 - rest.length)) rest).map (c :: ·)

def decodeUtf8 (bs : List Nat) : Except String (List Char) := decodeFrom bs.length 0 bs

/-! ## Base64 -/

def sixBits? (c : Char) : Option Nat :=
  if c.isUpper then some (c.toNat - 65)
  else if c.isLower then some (c.toNat - 71)
  else if c.isDigit then some (c.toNat + 4)
  else if c = '+' then some 62
  else if c = '/' then some 63
  else none

/-- The bytes of a base64 text.  `place` counts the characters of the group so far, `carry` holds
the bits left over, `pads` the padding seen since, and `bytes` the bytes so far in reverse. -/
def decodeGroups (place carry pads : Nat) (bytes : List UInt8) :
    List Char → Except String (List UInt8)
  | [] =>
    if place = 0 then .ok bytes.reverse
    else if place = 1 then
      .error ("Invalid base64-encoded string: number of data characters (" ++
        toString (bytes.length / 3 * 4 + 1) ++ ") cannot be 1 more than a multiple of 4")
    else .error "Incorrect padding"
  | c :: cs =>
    if c = '=' then
      if place ≥ 2 && place + pads + 1 ≥ 4 then .ok bytes.reverse
      else decodeGroups place carry (if place ≥ 2 then pads + 1 else pads) bytes cs
    else
      match sixBits? c with
      | none => decodeGroups place carry pads bytes cs
      | some v =>
        match place with
        | 0 => decodeGroups 1 v 0 bytes cs
        | 1 => decodeGroups 2 (v % 16) 0 (UInt8.ofNat (carry * 4 + v / 16) :: bytes) cs
        | 2 => decodeGroups 3 (v % 4) 0 (UInt8.ofNat (carry * 16 + v / 4) :: bytes) cs
        | _ => decodeGroups 0 0 0 (UInt8.ofNat (carry * 64 + v) :: bytes) cs

def decodeBase64 (cs : List Char) : Except String (List UInt8) := decodeGroups 0 0 0 [] cs

/-- The sentence that refuses the first code points beyond ASCII, if there are any. -/
def asciiFault? (ps : List Point) : Option String :=
  let isAscii (p : Point) : Bool := p.code < 0x80
  let start := (ps.takeWhile isAscii).length
  match ps.drop start with
  | [] => none
  | p :: rest =>
    let width := ((p :: rest).takeWhile fun p => !isAscii p).length
    let place :=
      if width = 1 then
        "character '" ++ escaped p.code ++ "' in position " ++ toString start
      else "characters in position " ++ toString start ++ "-" ++ toString (start + width - 1)
    some ("'ascii' codec can't encode " ++ place ++ ": ordinal not in range(128)")
where
  /-- A code point beyond ASCII by its number. -/
  escaped (code : Nat) : String :=
    String.ofList
      (if code ≤ 0xFF then '\\' :: 'x' :: Literal.hex 2 code
      else if code ≤ 0xFFFF then '\\' :: 'u' :: Literal.hex 4 code
      else '\\' :: 'U' :: Literal.hex 8 code)

end EntityGraph.Text
