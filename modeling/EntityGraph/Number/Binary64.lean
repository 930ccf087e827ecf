/-!
# Binary floating-point numbers

A binary64 number is a sign, a mantissa and a power of two, an infinity, or not a number.  All
arithmetic is exact arithmetic on fractions followed by one rounding to the nearest number, ties to
the even mantissa, so every operation is a statement about natural numbers.

* `Binary64.ofRatio`: the number nearest to a fraction;
* `Binary64.ofDecimal`: the number nearest to a decimal;
* `Binary64.add`, `Binary64.sub`, `Binary64.mul`: correctly rounded arithmetic;
* `Binary64.toInt?`: the integer that a number stands for, if it is one.
-/

namespace EntityGraph

/-- A binary64 number.  `finite s m e` is `m · 2 ^ e`, negated if `s` holds. -/
inductive Binary64 where
  | finite (negative : Bool) (mantissa : Nat) (exponent : Int)
  | infinite (negative : Bool)
  | nan
deriving DecidableEq, Repr, Inhabited

namespace Binary64

/-- The least exponent, that of the numbers below the normal range. -/
def minExponent : Int := -1074

/-- The greatest exponent of a finite number. -/
def maxExponent : Int := 971

/-- A fraction `num / den` rounded to an integer, a tie going to the even one. -/
def roundDiv (num den : Nat) : Nat :=
  let q := num / den
  let r := num % den
  if 2 * r > den || (2 * r == den && q % 2 == 1) then q + 1 else q

/-- The fraction `num / den` multiplied by `2 ^ (-e)`. -/
def scale (num den : Nat) (e : Int) : Nat × Nat :=
  if e < 0 then (num * Nat.pow 2 (-e).toNat, den) else (num, den * Nat.pow 2 e.toNat)

/-- The exponent of the leading binary digit of a positive fraction. -/
def leading (num den : Nat) : Int :=
  let k : Int := (num.log2 : Int) - (den.log2 : Int)
  let (a, b) := scale num den k
  if b ≤ a then k else k - 1

def zero (negative : Bool) : Binary64 := .finite negative 0 minExponent

/-- The number nearest to the fraction `num / den`. -/
def ofRatio (negative : Bool) (num den : Nat) : Binary64 :=
  if num = 0 then zero negative else
  let e := max (leading num den - 52) minExponent
  let (a, b) := scale num den e
  let m := roundDiv a b
  let (m, e) := if m = Nat.pow 2 53 then (Nat.pow 2 52, e + 1) else (m, e)
  if e > maxExponent then .infinite negative else .finite negative m e

def ofInt (i : Int) : Binary64 := ofRatio (i < 0) i.natAbs 1

/-- The number nearest to `digits · 10 ^ exponent`.  A decimal far outside the range is an infinity
or a zero without the power being computed. -/
def ofDecimal (negative : Bool) (digits : Nat) (exponent : Int) : Binary64 :=
  if digits = 0 then zero negative else
  let magnitude : Int := exponent + ((toString digits).length : Int)
  if magnitude > 320 then .infinite negative
  else if magnitude < -340 then zero negative
  else if exponent < 0 then ofRatio negative digits (Nat.pow 10 (-exponent).toNat)
  else ofRatio negative (digits * Nat.pow 10 exponent.toNat) 1

/-- The value of `m · 2 ^ e` as a fraction. -/
def ratio (m : Nat) (e : Int) : Nat × Nat :=
  if e < 0 then (m, Nat.pow 2 (-e).toNat) else (m * Nat.pow 2 e.toNat, 1)

/-- The sign bit; not a number counts as positive. -/
def isNegative : Binary64 → Bool
  | finite s _ _ => s
  | infinite s => s
  | nan => false

/-- The same magnitude with the other sign. -/
def neg : Binary64 → Binary64
  | finite s m e => finite (!s) m e
  | infinite s => infinite (!s)
  | nan => nan

def isZero : Binary64 → Bool
  | finite _ m _ => m == 0
  | _ => false

/-- Equality of values: the two zeros are equal, and not a number is equal to nothing. -/
def same : Binary64 → Binary64 → Bool
  | finite s m e, finite t n f => (m == 0 && n == 0) || (s == t && m == n && e == f)
  | infinite s, infinite t => s == t
  | _, _ => false

/-- The signed integer `± m · 2 ^ (e - d)` for `d ≤ e`. -/
def shifted (s : Bool) (m : Nat) (e d : Int) : Int :=
  let n : Int := ((m * Nat.pow 2 (e - d).toNat : Nat) : Int)
  if s then -n else n

/-- The correctly rounded sum.  An exact sum of zero is positive unless both terms are negative
zeros. -/
def add : Binary64 → Binary64 → Binary64
  | nan, _ => nan
  | _, nan => nan
  | infinite s, infinite t => if s == t then infinite s else nan
  | infinite s, _ => infinite s
  | _, infinite t => infinite t
  | finite s m e, finite t n f =>
    let d := min e f
    let total := shifted s m e d + shifted t n f d
    if total = 0 then zero (s && t)
    else
      let (a, b) := ratio total.natAbs d
      ofRatio (total < 0) a b

/-- The correctly rounded difference. -/
def sub (x y : Binary64) : Binary64 := add x (neg y)

/-- The correctly rounded product. -/
def mul : Binary64 → Binary64 → Binary64
  | nan, _ => nan
  | _, nan => nan
  | infinite s, y => if y.isZero then nan else infinite (s != y.isNegative)
  | x, infinite t => if x.isZero then nan else infinite (x.isNegative != t)
  | finite s m e, finite t n f =>
    let (a, b) := ratio (m * n) (e + f)
    ofRatio (s != t) a b

/-- The integer that a number stands for; `none` for a fraction, an infinity or not a number. -/
def toInt? : Binary64 → Option Int
  | finite s m e =>
    let (a, b) := ratio m e
    if a % b = 0 then some (if s then -((a / b : Nat) : Int) else ((a / b : Nat) : Int)) else none
  | _ => none

/-- A number that is neither an infinity nor not a number. -/
def isFinite : Binary64 → Bool
  | finite .. => true
  | _ => false

end Binary64

end EntityGraph
