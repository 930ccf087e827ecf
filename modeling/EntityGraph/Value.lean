import EntityGraph.Number.Binary64
import EntityGraph.Calendar
import EntityGraph.Text.Point

/-!
# Dynamic values

The values that a definition text can hold: those of a JSON document, and beyond them dates,
moments, byte strings, tuples, sets, and mappings with any key.  A mapping keeps its entries in
order.  A text with code points that are no characters is a value of its own.

* `Value.same`: equality by meaning, under which `1`, `1.0` and `true` are one value;
* `Value.typeName`: the name of a value's type, as messages give it;
* `Value.ofPoints`: the text of a row of code points;
* `Value.get?`, `Value.put`: a mapping read and written by key.
-/

namespace EntityGraph

/-- A dynamic value. -/
inductive Value where
  | null
  | bool (b : Bool)
  | int (i : Int)
  | float (x : Binary64)
  | text (s : String)
  /-- A text some of whose code points are no characters. -/
  | illFormed (points : List Text.Point)
  | bytes (bs : List UInt8)
  | date (d : Date)
  | moment (m : Moment)
  | list (xs : List Value)
  | tuple (xs : List Value)
  | set (xs : List Value)
  | map (entries : List (Value × Value))
deriving Repr, Inhabited

namespace Value

mutual

/-- Equality as data. -/
def beq : Value → Value → Bool
  | null, null => true
  | bool a, bool b => a == b
  | int i, int j => i == j
  | float x, float y => x == y
  | text s, text t => s == t
  | illFormed ps, illFormed qs => ps == qs
  | bytes bs, bytes cs => bs == cs
  | date d, date e => d == e
  | moment m, moment n => m == n
  | list xs, list ys => beqItems xs ys
  | tuple xs, tuple ys => beqItems xs ys
  | set xs, set ys => beqItems xs ys
  | map es, map fs => beqEntries es fs
  | _, _ => false

def beqItems : List Value → List Value → Bool
  | [], [] => true
  | x :: xs, y :: ys => beq x y && beqItems xs ys
  | _, _ => false

def beqEntries : List (Value × Value) → List (Value × Value) → Bool
  | [], [] => true
  | (k, v) :: es, (k', v') :: fs => beq k k' && beq v v' && beqEntries es fs
  | _, _ => false

end

instance : BEq Value := ⟨beq⟩

def typeName : Value → String
  | null => "NoneType"
  | bool _ => "bool"
  | int _ => "int"
  | float _ => "float"
  | text _ | illFormed _ => "str"
  | bytes _ => "bytes"
  | date _ => "date"
  | moment _ => "datetime"
  | list _ => "list"
  | tuple _ => "tuple"
  | set _ => "set"
  | map _ => "dict"

/-- Values that may be compared as members of a set or keys of a mapping. -/
def isKey : Value → Bool
  | list _ | set _ | map _ => false
  | _ => true

/-- A truth value or number as a number; the truth values are one and zero. -/
inductive Magnitude where
  | whole (i : Int)
  | other (x : Binary64)

/-- The number that a value stands for when it is compared with a number. -/
def magnitude? : Value → Option Magnitude
  | bool b => some (.whole (if b then 1 else 0))
  | int i => some (.whole i)
  | float x => some (match x.toInt? with | some i => .whole i | none => .other x)
  | _ => none

/-- Equality of numbers, whatever their types. -/
def Magnitude.same : Magnitude → Magnitude → Bool
  | .whole i, .whole j => i == j
  | .other x, .other y => Binary64.same x y
  | _, _ => false

mutual

/-- Equality by meaning.  Numbers are compared across their types, moments as instants, and
sequences of one type item by item. -/
def same : Value → Value → Bool
  | null, null => true
  | text s, text t => s == t
  | illFormed ps, illFormed qs => ps == qs
  | bytes bs, bytes cs => bs == cs
  | date d, date e => d == e
  | moment m, moment n => m.same n
  | list xs, list ys => sameItems xs ys
  | tuple xs, tuple ys => sameItems xs ys
  | set xs, set ys => set xs == set ys
  | map es, map fs => map es == map fs
  | a, b =>
    match a.magnitude?, b.magnitude? with
    | some x, some y => x.same y
    | _, _ => false

/-- Item by item.  An item that is written like another one counts as that item, whether it is equal
to itself or not. -/
def sameItems : List Value → List Value → Bool
  | [], [] => true
  | x :: xs, y :: ys => (x == y || x.same y) && sameItems xs ys
  | _, _ => false

end

def lookup? (key : Value) : List (Value × Value) → Option Value
  | [] => none
  | (k, v) :: rest => if k.same key then some v else lookup? key rest

/-- A mapping's entries with one more: an equal key keeps its place and its spelling and gets the
new value, a new key goes last. -/
def put (key value : Value) : List (Value × Value) → List (Value × Value)
  | [] => [(key, value)]
  | (k, v) :: rest => if k.same key then (k, value) :: rest else (k, v) :: put key value rest

def get? (key : String) : List (Value × Value) → Option Value
  | [] => none
  | (k, v) :: rest => if k == .text key then some v else get? key rest

/-- A mapping whose keys are texts. -/
def record (fields : List (String × Value)) : Value := map (fields.map fun f => (.text f.1, f.2))

def ofPoints (ps : List Text.Point) : Value :=
  match Text.chars? ps with
  | some cs => text (String.ofList cs)
  | none => illFormed ps

def texts (xs : List String) : Value := list (xs.map text)

/-- A value that a condition takes for false: null, false, a zero, or something empty. -/
def isFalsy : Value → Bool
  | null => true
  | bool b => !b
  | int i => i == 0
  | float x => x.isZero
  | text s => s.isEmpty
  | bytes bs => bs.isEmpty
  | list xs | tuple xs | set xs => xs.isEmpty
  | map es => es.isEmpty
  | illFormed _ | date _ | moment _ => false

end Value

/-- The first of each class of equal values, in order; `none` names the first value that cannot be a
member of a set. -/
def Value.distinct (xs : List Value) : Except Value (List Value) :=
  go [] xs
where
  go (seen : List Value) : List Value → Except Value (List Value)
    | [] => .ok seen.reverse
    | x :: rest =>
      if !x.isKey then .error x
      else if seen.any (·.same x) then go seen rest
      else go (x :: seen) rest

/-- The first occurrence of each text, in order. -/
def firstOccurrences (xs : List String) : List String :=
  xs.foldl (fun seen x => if seen.contains x then seen else seen ++ [x]) []

end EntityGraph
