import EntityGraph.Number.Binary64

/-!
# Decimal texts of binary numbers

Two ways to write a binary64 number in decimal.  The shortest text is the one with the fewest
digits that reads back as the same number, and of those the nearest to it; it is positional while
the decimal point stays within sixteen digits to the right and four zeros to the left, and has an
exponent otherwise.  The fixed text has a given number of places, and a half goes to the even digit.

* `Binary64.shortestDigits`: digits and position of the point;
* `Binary64.shortest`: the shortest text;
* `Binary64.fixed`: the text with a fixed number of places;
* `grouped`: an integer with its digits in groups of three.
-/

namespace EntityGraph

def digits (n : Nat) : List Char := (toString n).toList

namespace Binary64

/-- The place of the decimal point of a positive fraction: the fraction lies in
`[10 ^ (p - 1), 10 ^ p)`.  The estimate from the binary exponent is off by one at most. -/
def pointPlace (num den : Nat) : Int :=
  let guess := (leading num den * 30103) / 100000
  let reaches (p : Int) : Bool :=
    if p < 0 then den ≤ num * Nat.pow 10 (-p).toNat else den * Nat.pow 10 p.toNat ≤ num
  if reaches (guess + 1) then guess + 2
  else if reaches guess then guess + 1
  else guess

/-- The fraction `num / den` on the grid with `n` digits when its point is at `p`: the grid points
below and above it, and the better of the two that read back as the number. -/
def gridPoint? (x : Binary64) (num den : Nat) (p : Int) (n : Nat) : Option Nat :=
  let e := p - n
  let (a, b) := if e < 0 then (num * Nat.pow 10 (-e).toNat, den)
    else (num, den * Nat.pow 10 e.toNat)
  let low := a / b
  let high := low + 1
  let reads (d : Nat) : Bool := ofDecimal x.isNegative d e == x
  match reads low && low != 0, reads high with
  | true, true =>
    let r := a % b
    if 2 * r < b || (2 * r == b && low % 2 == 0) then some low else some high
  | true, false => some low
  | false, true => some high
  | false, false => none

/-- The digits of the first grid, from `n` digits on, that holds a point reading back as the
number; `fuel` more grids are tried, and without such a point it is one. -/
def searchDigits (x : Binary64) (num den : Nat) (p : Int) : Nat → Nat → Nat × Nat
  | n, 0 => ((gridPoint? x num den p n).getD 1, n)
  | n, fuel + 1 =>
    match gridPoint? x num den p n with
    | some d => (d, n)
    | none => searchDigits x num den p (n + 1) fuel

/-- The shortest digits of a positive number `m · 2 ^ e`, without trailing zeros, and the place of
the point before which they start. -/
def shortestDigits (x : Binary64) (m : Nat) (e : Int) : List Char × Int :=
  let (num, den) := ratio m e
  let p := pointPlace num den
  let (d, n) := searchDigits x num den p 1 16
  let cs := digits d
  let point := p + ((cs.length : Int) - (n : Int))
  ((cs.reverse.dropWhile (· == '0')).reverse, point)

/-- The exponent of a text: a sign and at least two digits. -/
def exponentText (e : Int) : String :=
  let body := toString e.natAbs
  (if e < 0 then "-" else "+") ++ (if body.length < 2 then "0" ++ body else body)

/-- Digits that start at decimal point `point`, written positionally or with an exponent. -/
def placePoint (ds : List Char) (point : Int) : String :=
  if -4 < point && point ≤ 16 then
    if point ≤ 0 then
      "0." ++ String.ofList (List.replicate (-point).toNat '0' ++ ds)
    else if (ds.length : Int) ≤ point then
      String.ofList (ds ++ List.replicate (point.toNat - ds.length) '0') ++ ".0"
    else
      String.ofList (ds.take point.toNat) ++ "." ++ String.ofList (ds.drop point.toNat)
  else
    let fraction := ds.drop 1
    String.ofList (ds.take 1) ++ (if fraction.isEmpty then "" else "." ++ String.ofList fraction)
      ++ "e" ++ exponentText (point - 1)

/-- The shortest text that reads back as the number. -/
def shortest (x : Binary64) : String :=
  match x with
  | nan => "nan"
  | infinite s => if s then "-inf" else "inf"
  | finite s m e =>
    let sign := if s then "-" else ""
    if m = 0 then sign ++ "0.0" else
    let (ds, point) := shortestDigits x m e
    sign ++ placePoint ds point

/-- The text with `places` digits after the point. -/
def fixed (x : Binary64) (places : Nat) : String :=
  match x with
  | nan => "nan"
  | infinite s => if s then "-inf" else "inf"
  | finite s m e =>
    let (num, den) := ratio m e
    let n := roundDiv (num * Nat.pow 10 places) den
    let cs := digits n
    let cs := List.replicate (places + 1 - cs.length) '0' ++ cs
    let whole := String.ofList (cs.take (cs.length - places))
    (if s then "-" else "") ++ whole ++
      (if places = 0 then "" else "." ++ String.ofList (cs.drop (cs.length - places)))

end Binary64

/-- Digits, the last one first, with a comma after every third. -/
def groupReversed : List Char → List Char
  | a :: b :: c :: d :: rest => a :: b :: c :: ',' :: groupReversed (d :: rest)
  | cs => cs

/-- A natural number with its digits in groups of three. -/
def grouped (n : Nat) : String := String.ofList (groupReversed (digits n).reverse).reverse

/-- An integer with commas between groups of three digits. -/
def groupedInt (i : Int) : String := (if i < 0 then "-" else "") ++ grouped i.natAbs

end EntityGraph
