import EntityGraph.Validator.Signature

/-!
# Values that can be written

A value can be written if it has no more levels than there is room for and no integer in it has too
many digits.  The levels are those of the collections and of what they hold; as a set is written by
way of a list of its items, it counts twice.

* `Value.height`: the levels of a value;
* `Value.flaw?_eq_none_iff`: which values have no flaw;
* `Validator.hasText_iff`: which validators can be written.
-/

namespace EntityGraph

namespace Value

mutual

/-- The levels of a value. -/
def height : Value → Nat
  | moment m => Literal.momentHeight m
  | list xs | tuple xs => heightOfAll xs + 1
  | set [] => 1
  | set (x :: xs) => heightOfAll (x :: xs) + 2
  | map es => heightOfEntries es + 1
  | _ => 1

def heightOfAll : List Value → Nat
  | [] => 0
  | x :: xs => max (height x) (heightOfAll xs)

def heightOfEntries : List (Value × Value) → Nat
  | [] => 0
  | (k, v) :: es => max (max (height k) (height v)) (heightOfEntries es)

end

theorem height_pos (v : Value) : 0 < v.height := by
  cases v with
  | moment m =>
    rw [height, Literal.momentHeight]
    split <;> decide
  | set xs => cases xs <;> simp [height]
  | _ => simp [height]

mutual

/-- A value without a flaw has no more levels than there is room for, and its integers are short. -/
theorem flaw?_eq_none_iff : ∀ {room : Nat} (v : Value),
    v.flaw? room = none ↔ v.height ≤ room ∧ v.hasShortNumbers = true
  | 0, v => by simp [flaw?, Nat.ne_of_gt v.height_pos]
  | room + 1, int i => by simp [flaw?, height, hasShortNumbers]
  | room + 1, moment m => by simp [flaw?, height, hasShortNumbers]
  | room + 1, list xs => by
    simp [flaw?, height, hasShortNumbers, flawOfAll?_eq_none_iff xs]
  | room + 1, tuple xs => by
    simp [flaw?, height, hasShortNumbers, flawOfAll?_eq_none_iff xs]
  | room + 1, set [] => by simp [flaw?, flawOfAll?, height, hasShortNumbers, allHaveShortNumbers]
  | 0 + 1, set (x :: xs) => by
    simp [flaw?, flawOfAll?_eq_none_iff (x :: xs), height, heightOfAll, Nat.ne_of_gt x.height_pos]
  | room + 1 + 1, set (x :: xs) => by
    simp [flaw?, flawOfAll?_eq_none_iff (x :: xs), height, hasShortNumbers]
  | room + 1, map es => by
    simp [flaw?, height, hasShortNumbers, flawOfEntries?_eq_none_iff es]
  | room + 1, null | room + 1, bool _ | room + 1, float _ | room + 1, text _ | room + 1, illFormed _
  | room + 1, bytes _ | room + 1, date _ => by simp [flaw?, height, hasShortNumbers]

theorem flawOfAll?_eq_none_iff : ∀ {room : Nat} (xs : List Value),
    flawOfAll? room xs = none ↔ heightOfAll xs ≤ room ∧ allHaveShortNumbers xs = true
  | room, [] => by simp [flawOfAll?, heightOfAll, allHaveShortNumbers]
  | room, x :: xs => by
    rw [flawOfAll?, Option.or_eq_none_iff, flaw?_eq_none_iff x, flawOfAll?_eq_none_iff xs,
      heightOfAll, allHaveShortNumbers, Nat.max_le, Bool.and_eq_true, and_and_and_comm]

theorem flawOfEntries?_eq_none_iff : ∀ {room : Nat} (es : List (Value × Value)),
    flawOfEntries? room es = none ↔ heightOfEntries es ≤ room ∧ entriesHaveShortNumbers es = true
  | room, [] => by simp [flawOfEntries?, heightOfEntries, entriesHaveShortNumbers]
  | room, (k, v) :: es => by
    rw [flawOfEntries?, Option.or_eq_none_iff, Option.or_eq_none_iff, flaw?_eq_none_iff k,
      flaw?_eq_none_iff v, flawOfEntries?_eq_none_iff es, heightOfEntries, entriesHaveShortNumbers,
      Nat.max_le, Nat.max_le, Bool.and_eq_true, Bool.and_eq_true,
      and_and_and_comm (c := v.height ≤ room), and_and_and_comm]

end

end Value

/-- A validator can be written if every value that is written of its bag can be. -/
theorem Validator.hasText_iff [Limits] {v : Validator} {signature : Signature}
    (h : signature? v.kind = some signature) :
    v.hasText = true ↔ ∀ x ∈ signature.written v.bag,
      x.height ≤ Limits.values - signature.calls ∧ x.hasShortNumbers = true := by
  rw [Validator.hasText, Validator.flaw?, h, Option.bind_some, Option.isNone_iff_eq_none,
    List.findSome?_eq_none_iff]
  simp only [Value.flaw?_eq_none_iff]

end EntityGraph
