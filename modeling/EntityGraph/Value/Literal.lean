import EntityGraph.Number.Decimal
import EntityGraph.Text.Printable
import EntityGraph.Value

/-!
# Literal texts of values

The text of a value as a literal of the generated module, and its plain text as messages show it.
The two differ for texts and dates only: a literal quotes a text and spells a date as a constructor
call.

* `Literal.quoted`: a text between quotes, with every character that has no visible form escaped;
* `Value.literal`: the literal of a value;
* `Value.hasShortNumbers`: whether the integers in a value can be written;
* `Value.flaw?`: what keeps a value from being written;
* `Value.plain`, `Value.asText`: the plain text of a value.
-/

namespace EntityGraph

namespace Literal

def hexDigit (n : Nat) : Char := if n < 10 then Char.ofNat (48 + n) else Char.ofNat (87 + n)

def hex : Nat → Nat → List Char
  | 0, _ => []
  | width + 1, n => hex width (n / 16) ++ [hexDigit (n % 16)]

/-- The quote around a text: single, unless the text holds single quotes and no double ones. -/
def quoteFor (cs : List Char) : Char :=
  if cs.contains '\'' && !cs.contains '"' then '"' else '\''

def escape (quote c : Char) : List Char :=
  if c = quote || c = '\\' then ['\\', c]
  else if c = '\n' then ['\\', 'n']
  else if c = '\r' then ['\\', 'r']
  else if c = '\t' then ['\\', 't']
  else if Text.isPrintable c then [c]
  else if c.toNat ≤ 0xFF then '\\' :: 'x' :: hex 2 c.toNat
  else if c.toNat ≤ 0xFFFF then '\\' :: 'u' :: hex 4 c.toNat
  else '\\' :: 'U' :: hex 8 c.toNat

def between (quote : Char) (cs : List Char) : List Char :=
  quote :: (cs.flatMap (escape quote) ++ [quote])

/-- A text between the quotes that suit it. -/
def quotedChars (cs : List Char) : List Char := between (quoteFor cs) cs

def quoted (s : String) : String := String.ofList (quotedChars s.toList)

/-- A code point between quotes; a half of a pair is always escaped. -/
def escapePoint (quote : Char) : Text.Point → List Char
  | .char c => escape quote c
  | .half code => '\\' :: 'u' :: hex 4 code

def pointsBetween (quote : Char) (ps : List Text.Point) : List Char :=
  quote :: (ps.flatMap (escapePoint quote) ++ [quote])

/-- A row of code points between the quotes that suit it. -/
def quotedPoints (ps : List Text.Point) : List Char :=
  pointsBetween (quoteFor (ps.map Text.Point.shown)) ps

/-- A byte between quotes; only visible ASCII characters stand for themselves. -/
def escapeByte (quote : Char) (b : UInt8) : List Char :=
  let c := Char.ofNat b.toNat
  if b.toNat < 0x7F then
    if 0x20 ≤ b.toNat || c = '\n' || c = '\r' || c = '\t' then escape quote c
    else '\\' :: 'x' :: hex 2 b.toNat
  else '\\' :: 'x' :: hex 2 b.toNat

def bytes (bs : List UInt8) : String :=
  let quote := quoteFor (bs.map fun b => Char.ofNat b.toNat)
  String.ofList ('b' :: quote :: (bs.flatMap (escapeByte quote) ++ [quote]))

def calendarCall (name : String) (parts : List String) : String :=
  "datetime." ++ name ++ "(" ++ ", ".intercalate parts ++ ")"

def date (d : Date) : String :=
  calendarCall "date" [toString d.year, toString d.month, toString d.day]

/-- A span of minutes as days and seconds; only the days may be negative. -/
def span (minutes : Int) : String :=
  let days := minutes.fdiv 1440
  let seconds := minutes.fmod 1440 * 60
  let parts := (if days = 0 then [] else ["days=" ++ toString days]) ++
    (if seconds = 0 then [] else ["seconds=" ++ toString seconds])
  calendarCall "timedelta" (if parts.isEmpty then ["0"] else parts)

/-- The literal of a moment.  Seconds and their millionths are left out where they are zero, seconds
only if nothing follows them. -/
def moment (m : Moment) : String :=
  let c := m.clock
  let tail :=
    if c.micro = 0 then (if c.second = 0 then [] else [toString c.second])
    else [toString c.second, toString c.micro]
  let zone := match m.offset with
    | none => []
    | some 0 => ["tzinfo=datetime.timezone.utc"]
    | some minutes => ["tzinfo=" ++ calendarCall "timezone" [span minutes]]
  calendarCall "datetime" ([toString m.date.year, toString m.date.month, toString m.date.day,
    toString c.hour, toString c.minute] ++ tail ++ zone)

/-- The levels of the literal of a moment: its call may hold that of a time zone, and this one that
of a span. -/
def momentHeight (m : Moment) : Nat :=
  match m.offset with
  | none => 1
  | some 0 => 2
  | some _ => 3

/-- A number with at least `width` digits. -/
def padded (width n : Nat) : String :=
  let ds := digits n
  String.ofList (List.replicate (width - ds.length) '0' ++ ds)

def plainDate (d : Date) : String :=
  "-".intercalate [padded 4 d.year, padded 2 d.month, padded 2 d.day]

def plainMoment (m : Moment) : String :=
  let c := m.clock
  let zone := match m.offset with
    | none => ""
    | some minutes =>
      (if minutes < 0 then "-" else "+") ++ padded 2 (minutes.natAbs / 60) ++ ":" ++
        padded 2 (minutes.natAbs % 60)
  plainDate m.date ++ " " ++ ":".intercalate [padded 2 c.hour, padded 2 c.minute, padded 2 c.second]
    ++ (if c.micro = 0 then "" else "." ++ padded 6 c.micro) ++ zone

def bool (b : Bool) : String := if b then "True" else "False"

def null : String := "None"

end Literal

namespace Value

/-- The most digits of a number that can be written. -/
def mostDigits : Nat := 4300

mutual

/-- No integer in a value has too many digits. -/
def hasShortNumbers : Value → Bool
  | int i => i.natAbs < Nat.pow 10 mostDigits
  | list xs | tuple xs | set xs => allHaveShortNumbers xs
  | map es => entriesHaveShortNumbers es
  | _ => true

def allHaveShortNumbers : List Value → Bool
  | [] => true
  | x :: xs => hasShortNumbers x && allHaveShortNumbers xs

def entriesHaveShortNumbers : List (Value × Value) → Bool
  | [] => true
  | (k, v) :: es => hasShortNumbers k && hasShortNumbers v && entriesHaveShortNumbers es

end

/-- What keeps a value from being written. -/
inductive Flaw where
  /-- An integer with too many digits. -/
  | tooLong
  /-- More levels than there is room for. -/
  | tooDeep
deriving DecidableEq, Repr

mutual

/-- The first flaw that is met when a value is written with room for so many levels. -/
def flaw? : (room : Nat) → Value → Option Flaw
  | 0, _ => some .tooDeep
  | _ + 1, int i => if i.natAbs < Nat.pow 10 mostDigits then none else some .tooLong
  | room + 1, moment m => if Literal.momentHeight m ≤ room + 1 then none else some .tooDeep
  | room + 1, list xs | room + 1, tuple xs => flawOfAll? room xs
  | room + 1, set xs => flawOfAll? (room - 1) xs
  | room + 1, map es => flawOfEntries? room es
  | _ + 1, _ => none

def flawOfAll? : (room : Nat) → List Value → Option Flaw
  | _, [] => none
  | room, x :: xs => (flaw? room x).or (flawOfAll? room xs)

def flawOfEntries? : (room : Nat) → List (Value × Value) → Option Flaw
  | _, [] => none
  | room, (k, v) :: es => ((flaw? room k).or (flaw? room v)).or (flawOfEntries? room es)

end

mutual

def literal : Value → String
  | null => Literal.null
  | bool b => Literal.bool b
  | int i => toString i
  | float x => x.shortest
  | text s => Literal.quoted s
  | illFormed ps => String.ofList (Literal.quotedPoints ps)
  | bytes bs => Literal.bytes bs
  | date d => Literal.date d
  | moment m => Literal.moment m
  | list xs => "[" ++ ", ".intercalate (literals xs) ++ "]"
  | tuple [x] => "(" ++ literal x ++ ",)"
  | tuple xs => "(" ++ ", ".intercalate (literals xs) ++ ")"
  | set [] => "set()"
  | set xs => "\x7b" ++ ", ".intercalate (literals xs) ++ "\x7d"
  | map es => "\x7b" ++ ", ".intercalate (entryLiterals es) ++ "\x7d"

def literals : List Value → List String
  | [] => []
  | x :: xs => literal x :: literals xs

def entryLiterals : List (Value × Value) → List String
  | [] => []
  | (k, v) :: es => (literal k ++ ": " ++ literal v) :: entryLiterals es

end

/-- The plain text of a value: a text stands for itself, with halves of pairs replaced, and a date
is written with hyphens; any other value is its literal. -/
def plain : Value → String
  | text s => s
  | illFormed ps => String.ofList (ps.map Text.Point.shown)
  | date d => Literal.plainDate d
  | moment m => Literal.plainMoment m
  | v => literal v

/-- A value as a text: a text is kept as it is, and any other value gives its plain text. -/
def asText : Value → Value
  | illFormed ps => illFormed ps
  | v => text v.plain

end Value

end EntityGraph
