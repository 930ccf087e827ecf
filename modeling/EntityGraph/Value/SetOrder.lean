import EntityGraph.Value

/-!
# The order of sets

A set of numbers is held in a table of slots.  Each number has a code, the same for equal numbers of
different types, and goes to the slot that its code names or to the first free one that a fixed
search finds from there.  The members of the set follow one another in the order of the slots.

* `Value.code?`: the code of a number;
* `SetOrder.arrange`: the members of a set in order.
-/

namespace EntityGraph

/-- The prime modulo which codes are taken. -/
def codeModulus : Nat := Nat.pow 2 61 - 1

/-- The code of a signed magnitude; minus one is no code. -/
def signedCode (negative : Bool) (residue : Nat) : Int :=
  let code : Int := if negative then -(residue : Int) else residue
  if code = -1 then -2 else code

/-- The code of a number.  Two to the power 61 is one modulo the prime, so only the residue of an
exponent counts. -/
def Value.code? : Value → Option Int
  | .bool b => some (if b then 1 else 0)
  | .int i => some (signedCode (i < 0) (i.natAbs % codeModulus))
  | .float (.finite s m e) => some (signedCode s (m * Nat.pow 2 (e % 61).toNat % codeModulus))
  | .float (.infinite s) => some (if s then -314159 else 314159)
  | _ => none

namespace SetOrder

/-- A table of slots, whose number is a power of two. -/
abbrev Slots := Array (Option Value)

/-- How many neighbours of a slot are tried before the search goes elsewhere. -/
def neighbours : Nat := 9

/-- The number of slots for the members of a set: eight for the first four of them, otherwise the
first power of two above twice their number. -/
def slotCount (members : Nat) : Nat := if members < 5 then 8 else Nat.pow 2 ((2 * members).log2 + 1)

/-- The free slot that a search finds from slot `i` on; what is left of the code sends it to other
parts of the table. -/
def freeSlot (slots : Slots) : (fuel : Nat) → (i rest : Nat) → Nat
  | 0, i, _ => i
  | fuel + 1, i, rest =>
    let reach := if i + neighbours < slots.size then neighbours else 0
    match (List.range (reach + 1)).find? fun k => (slots.getD (i + k) none).isNone with
    | some k => i + k
    | none =>
      let rest := rest / 32
      freeSlot slots fuel ((i * 5 + 1 + rest) % slots.size) rest

def put (slots : Slots) (code : Int) (v : Value) : Slots :=
  let word := (code % Int.pow 2 64).toNat
  slots.set! (freeSlot slots (slots.size + 64) (word % slots.size) word) (some v)

/-- The members of a set, each of them once, in the order of their slots.  Members that are not all
numbers stay in the order of their writing. -/
def arrange (xs : List Value) : List Value :=
  match xs.mapM Value.code? with
  | none => xs
  | some codes =>
    let empty : Slots := Array.replicate (slotCount xs.length) none
    ((codes.zip xs).foldl (fun slots m => put slots m.1 m.2) empty).toList.filterMap id

end SetOrder

end EntityGraph
