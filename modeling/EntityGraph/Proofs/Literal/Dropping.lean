import EntityGraph.Proofs.Handlers.Number
import EntityGraph.Proofs.Literal.Parameters

/-!
# Rows without their end

Parameters at the end of a row are dropped in two ways: the values that were not found, and the texts
that read like null.  Either way the row is left up to the last item that is to be kept, and the
second way drops the nulls and nothing else, because only null is written as null.

* `CountsTo`: the number of items up to the last one with a property;
* `Signature.countsTo_dropEnd`: how much of a row is left when its end is dropped;
* `Value.literal_eq_null`: only null is written as null.
-/

namespace EntityGraph

open Expression (toDigits_cons toList_negSucc toList_toString)

/-! ## Rows without their end -/

/-- The number of items up to the last one with a property, zero if no item has it. -/
structure CountsTo {α : Type} (P : α → Prop) (xs : List α) (n : Nat) : Prop where
  covers : ∀ (i : Nat) x, xs[i]? = some x → P x → i < n
  reached : ∀ m, n = m + 1 → ∃ x, xs[m]? = some x ∧ P x

namespace CountsTo

variable {α : Type} {P : α → Prop} {xs : List α} {m n : Nat}

theorem le (hm : CountsTo P xs m) (hn : CountsTo P xs n) : m ≤ n := by
  cases m with
  | zero => exact Nat.zero_le n
  | succ k =>
    obtain ⟨x, hx, hP⟩ := hm.reached k rfl
    exact hn.covers k x hx hP

/-- There is one such number only. -/
theorem unique (hm : CountsTo P xs m) (hn : CountsTo P xs n) : m = n :=
  Nat.le_antisymm (hm.le hn) (hn.le hm)

end CountsTo

/-- A property of what the items stand for counts as far as the property itself. -/
theorem CountsTo.of_map {α β : Type} {P : β → Prop} {f : α → β} {xs : List α} {n : Nat}
    (h : CountsTo P (xs.map f) n) : CountsTo (fun x => P (f x)) xs n := by
  constructor
  · intro i x hx hP
    exact h.covers i (f x) (by rw [List.getElem?_map, hx, Option.map_some]) hP
  · intro m hm
    obtain ⟨y, hy, hP⟩ := h.reached m hm
    rw [List.getElem?_map] at hy
    obtain ⟨x, hx, rfl⟩ := Option.map_eq_some_iff.mp hy
    exact ⟨x, hx, hP⟩

namespace Signature

variable {α β : Type}

theorem getElem?_dropEnd {p : α → Bool} {xs : List α} {i : Nat} (h : i < (dropEnd p xs).length) :
    (dropEnd p xs)[i]? = xs[i]? := by
  obtain ⟨ys, hAll, -⟩ := dropEnd_append p xs
  conv_rhs => rw [hAll]
  exact (List.getElem?_append_left h).symm

/-- What is left of a row ends with an item that fails the test. -/
theorem of_getLast?_dropEnd {p : α → Bool} {xs : List α} {x : α}
    (h : (dropEnd p xs).getLast? = some x) : p x = false := by
  induction xs with
  | nil => cases h
  | cons y ys ih =>
    rw [dropEnd] at h
    split at h
    · split at h
      · cases h
      · rename_i hTest
        obtain rfl := Option.some.inj h
        exact Bool.not_eq_true _ ▸ hTest
    · rename_i hSome
      rw [List.getLast?_cons_of_ne_nil hSome] at h
      exact ih h

/-- A row is left up to the last item that fails the test. -/
theorem countsTo_dropEnd (p : α → Bool) (xs : List α) :
    CountsTo (p · = false) xs (dropEnd p xs).length := by
  obtain ⟨ys, hAll, hLost⟩ := dropEnd_append p xs
  constructor
  · intro i x hx hTest
    by_contra hLate
    rw [hAll, List.getElem?_append_right (Nat.le_of_not_lt hLate)] at hx
    have hPasses := hLost x (List.mem_of_getElem? hx)
    rw [hTest] at hPasses
    cases hPasses
  · intro m hm
    have hLast : m < (dropEnd p xs).length := by omega
    have hEnd : (dropEnd p xs).getLast? = some (dropEnd p xs)[m] := by
      rw [List.getLast?_eq_getElem?, hm, Nat.add_sub_cancel, List.getElem?_eq_getElem hLast]
    refine ⟨(dropEnd p xs)[m], ?_, of_getLast?_dropEnd hEnd⟩
    rw [← getElem?_dropEnd hLast, List.getElem?_eq_getElem hLast]

theorem dropEnd_map (p : β → Bool) (f : α → β) (xs : List α) :
    dropEnd p (xs.map f) = (dropEnd (fun x => p (f x)) xs).map f := by
  induction xs with
  | nil => rfl
  | cons x xs ih =>
    rw [List.map_cons, dropEnd, dropEnd, ih]
    cases dropEnd (fun x => p (f x)) xs with
    | nil =>
      show (if p (f x) then [] else [f x]) = (if p (f x) then [] else [x]).map f
      split <;> rfl
    | cons y ys => rfl

theorem dropEnd_concat {p : α → Bool} (xs : List α) {x : α} (h : p x = false) :
    dropEnd p (xs ++ [x]) = xs ++ [x] := by
  induction xs with
  | nil => simp [dropEnd, h]
  | cons y ys ih =>
    rw [List.cons_append, dropEnd, ih]
    split
    · rename_i hNone
      exact absurd hNone (by simp)
    · rfl

end Signature

/-! ## The text of null -/

/-- A text with a given first character. -/
def Starts (c : Char) (s : String) : Prop := s.toList.head? = some c

namespace Starts

variable {c : Char} {s : String}

theorem append (h : Starts c s) (t : String) : Starts c (s ++ t) := by
  rw [Starts, String.toList_append, List.head?_append, h, Option.some_or]

theorem of_toList {cs : List Char} (h : s.toList = c :: cs) : Starts c s := by
  rw [Starts, h, List.head?_cons]

/-- A text that is not the one of null, by its first character. -/
theorem ne_null (h : Starts c s) (hFirst : c ≠ 'N') : s ≠ Literal.null := by
  rintro rfl
  exact hFirst (Option.some.inj h).symm

end Starts

namespace Value

theorem ne_of_isDigit {c : Char} (h : c.isDigit = true) : c ≠ 'N' := by
  rintro rfl
  cases h

theorem literal_int_ne (i : Int) : (int i).literal ≠ Literal.null := by
  cases i with
  | ofNat n =>
    obtain ⟨c, cs, hText, hDigit, -⟩ := toDigits_cons n
    have hStarts : Starts c (toString n) := .of_toList ((toList_toString n).trans hText)
    exact hStarts.ne_null (ne_of_isDigit hDigit)
  | negSucc n =>
    have hStarts : Starts '-' (toString (Int.negSucc n)) := .of_toList (toList_negSucc n)
    exact hStarts.ne_null (by decide)

theorem literal_float_ne (x : Binary64) : (float x).literal ≠ Literal.null := by
  cases x with
  | nan => decide
  | infinite s => cases s <;> decide
  | finite s m e =>
    obtain ⟨cs, hNumeral, hText⟩ := Binary64.shortest_eq s m e
    cases s with
    | true =>
      have hStarts : Starts '-' (Binary64.finite true m e).shortest := .of_toList hText
      exact hStarts.ne_null (by decide)
    | false =>
      cases hNumeral with
      | plain hDigit _ =>
        exact (Starts.of_toList hText).ne_null (ne_of_isDigit hDigit)
      | scaled hDigit _ _ _ _ =>
        exact (Starts.of_toList hText).ne_null (ne_of_isDigit hDigit)

/-- A text between quotes is not the one of null. -/
theorem ofList_quote_ne (cs ds : List Char) :
    String.ofList (Literal.quoteFor cs :: ds) ≠ Literal.null := by
  have hStarts : Starts (Literal.quoteFor cs) (String.ofList (Literal.quoteFor cs :: ds)) :=
    .of_toList String.toList_ofList
  refine hStarts.ne_null ?_
  unfold Literal.quoteFor
  split <;> decide

theorem calendarCall_ne (name : String) (parts : List String) :
    Literal.calendarCall name parts ≠ Literal.null := by
  have hStarts : Starts 'd' "datetime." := rfl
  exact ((((hStarts.append name).append "(").append _).append ")").ne_null (by decide)

/-- A text between two marks is not the one of null. -/
theorem enclosed_ne {a : String} {c : Char} (h : Starts c a) (hFirst : c ≠ 'N') (s b : String) :
    a ++ s ++ b ≠ Literal.null :=
  ((h.append s).append b).ne_null hFirst

/-- Only null is written as null. -/
theorem literal_eq_null {v : Value} : v.literal = Literal.null ↔ v = null := by
  refine ⟨fun h => ?_, fun h => h ▸ rfl⟩
  cases v with
  | null => rfl
  | bool b => cases b <;> exact absurd h (by decide)
  | int i => exact absurd h (literal_int_ne i)
  | float x => exact absurd h (literal_float_ne x)
  | text s => exact absurd h (ofList_quote_ne _ _)
  | illFormed ps => exact absurd h (ofList_quote_ne _ _)
  | bytes bs =>
    have hStarts : Starts 'b' (Literal.bytes bs) := .of_toList String.toList_ofList
    exact absurd h (hStarts.ne_null (by decide))
  | date d => exact absurd h (calendarCall_ne _ _)
  | moment m => exact absurd h (calendarCall_ne _ _)
  | list xs => exact absurd h (enclosed_ne (show Starts '[' "[" from rfl) (by decide) _ _)
  | tuple xs =>
    have hStarts : Starts '(' "(" := rfl
    rcases xs with _ | ⟨x, _ | ⟨y, ys⟩⟩
    · exact absurd h (by decide)
    · exact absurd h (enclosed_ne hStarts (by decide) _ _)
    · exact absurd h (enclosed_ne hStarts (by decide) _ _)
  | set xs =>
    have hStarts : Starts '\x7b' "\x7b" := rfl
    cases xs with
    | nil => exact absurd h (by decide)
    | cons x xs => exact absurd h (enclosed_ne hStarts (by decide) _ _)
  | map es =>
    have hStarts : Starts '\x7b' "\x7b" := rfl
    exact absurd h (enclosed_ne hStarts (by decide) _ _)

end Value

end EntityGraph
