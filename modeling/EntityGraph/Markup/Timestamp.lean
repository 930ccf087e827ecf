import EntityGraph.Failure

/-!
# Timestamps

Dates and moments as scalars spell them: a date, and after it perhaps a time of day with a fraction
and an offset.

* `Timestamp.read?`: the parts of a timestamp;
* `Timestamp.isImplicit`: the timestamps that need no tag;
* `Timestamp.value`: the date or the moment that a timestamp stands for.
-/

namespace EntityGraph.Markup

/-- The offset of a time of day. -/
inductive Zone where
  | unknown
  | universal
  | offset (negative : Bool) (hour minute : Nat)
deriving DecidableEq, Repr

/-- The time of day in a timestamp, with the digits of its fraction. -/
structure TimeOfDay where
  hour : Nat
  minute : Nat
  second : Nat
  fraction : List Char
  zone : Zone
deriving DecidableEq, Repr

/-- The parts of a timestamp. -/
structure Timestamp where
  year : Nat
  month : Nat
  day : Nat
  time : Option TimeOfDay
deriving DecidableEq, Repr

def numberOf (ds : List Char) : Nat := ds.foldl (fun n c => n * 10 + (c.toNat - 48)) 0

def shortNumber? : List Char → Option (Nat × List Char)
  | a :: b :: rest =>
    if !a.isDigit then none
    else if b.isDigit then some (numberOf [a, b], rest)
    else some (numberOf [a], b :: rest)
  | [a] => if a.isDigit then some (numberOf [a], []) else none
  | [] => none

def pair? : List Char → Option (Nat × List Char)
  | a :: b :: rest => if a.isDigit && b.isDigit then some (numberOf [a, b], rest) else none
  | _ => none

def after? (c : Char) : List Char → Option (List Char)
  | d :: rest => if d = c then some rest else none
  | [] => none

def isTimeGap (c : Char) : Bool := c = ' ' || c = '\t'

namespace Zone

/-- An offset, with its minutes left out or not. -/
def offset? (negative : Bool) (cs : List Char) : Option Zone := do
  let (hour, cs) ← shortNumber? cs
  if cs.isEmpty then return .offset negative hour 0
  let (minute, cs) ← pair? (← after? ':' cs)
  if cs.isEmpty then return .offset negative hour minute else none

/-- The offset at the end of a timestamp, blanks before it allowed. -/
def read? (cs : List Char) : Option Zone :=
  if cs.isEmpty then some .unknown
  else
    match cs.dropWhile isTimeGap with
    | ['Z'] => some .universal
    | '+' :: rest => offset? false rest
    | '-' :: rest => offset? true rest
    | _ => none

end Zone

/-- The time of day at the end of a timestamp. -/
def TimeOfDay.read? (cs : List Char) : Option TimeOfDay := do
  let (hour, cs) ← shortNumber? cs
  let (minute, cs) ← pair? (← after? ':' cs)
  let (second, cs) ← pair? (← after? ':' cs)
  let (fraction, cs) := match cs with
    | '.' :: rest => (rest.takeWhile Char.isDigit, rest.dropWhile Char.isDigit)
    | _ => ([], cs)
  return ⟨hour, minute, second, fraction, ← Zone.read? cs⟩

namespace Timestamp

/-- What separates a date from a time of day: the letter t, or blanks. -/
def afterDate? : List Char → Option (List Char)
  | c :: rest =>
    if c = 'T' || c = 't' then some rest
    else if isTimeGap c then some (rest.dropWhile isTimeGap)
    else none
  | [] => none

def read? (cs : List Char) : Option Timestamp := do
  let year := cs.take 4
  if year.length ≠ 4 || !year.all Char.isDigit then none
  let (month, cs) ← shortNumber? (← after? '-' (cs.drop 4))
  let (day, cs) ← shortNumber? (← after? '-' cs)
  if cs.isEmpty then return ⟨numberOf year, month, day, none⟩
  let time ← TimeOfDay.read? (← afterDate? cs)
  return ⟨numberOf year, month, day, some time⟩

/-- A timestamp that needs no tag.  A date alone has all ten characters. -/
def isImplicit (cs : List Char) : Bool :=
  match read? cs with
  | some t => t.time.isSome || cs.length = 10
  | none => false

/-- Millionths of a second from the digits of a fraction, further digits left out. -/
def micro (fraction : List Char) : Nat :=
  let ds := fraction.take 6
  numberOf ds * Nat.pow 10 (6 - ds.length)

/-- The sentence that refuses a date, a time of day or an offset. -/
def faultText : CalendarFault → String
  | .year n => "year " ++ toString n ++ " is out of range"
  | .month => "month must be in 1..12"
  | .day => "day is out of range for month"
  | .hour => "hour must be in 0..23"
  | .minute => "minute must be in 0..59"
  | .second => "second must be in 0..59"
  | .offset minutes =>
    "offset must be a timedelta strictly between -timedelta(hours=24) and timedelta(hours=24), " ++
      "not " ++ Literal.span minutes ++ "."

/-- The minutes of an offset, none if it is unknown. -/
def zoneMinutes : Zone → Except CalendarFault (Option Int)
  | .unknown => .ok none
  | .universal => .ok (some 0)
  | .offset negative hour minute =>
    let minutes : Int := ((hour * 60 + minute : Nat) : Int)
    (checkOffset (if negative then -minutes else minutes)).map some

/-- The date or the moment that a timestamp stands for. -/
def checked (t : Timestamp) : Except CalendarFault Value := do
  let date : Date := ⟨t.year, t.month, t.day⟩
  match t.time with
  | none => return .date (← date.check)
  | some c =>
    let offset ← zoneMinutes c.zone
    let date ← date.check
    let clock ← Clock.check ⟨c.hour, c.minute, c.second, micro c.fraction⟩
    return .moment ⟨date, clock, offset⟩

def value (cs : List Char) : Except Failure Value :=
  match read? cs with
  | none => .error .notATimestamp
  | some t => t.checked.mapError fun fault => .unreadableScalar (faultText fault)

end Timestamp

end EntityGraph.Markup
