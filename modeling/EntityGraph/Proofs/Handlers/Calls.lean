import EntityGraph.Handlers.Layout
import Mathlib.Tactic.SplitIfs

/-!
# Layouts of calls with two arguments

A call with two plain arguments is written in one of three ways: on one line, with both arguments on
a line of their own, or with a line for each of them.  The last way adds a comma, which a second
layout takes as a wish for the same lines.

* `Row.IsUnbreakable`: a row that stays as it is;
* `callForms`: the three ways;
* `layOut_pair`: a layout is one of them.
-/

namespace EntityGraph.Handlers

open Row

namespace Row

/-! ## Rows that stay as they are -/

/-- A row that can be broken in no way. -/
def IsUnbreakable (limit : Nat) (r : Row) : Prop := r.break? limit = none

theorem breakAll_of_unbreakable {limit : Nat} {r : Row} (h : r.IsUnbreakable limit) (fuel : Nat) :
    breakAll limit fuel r = [r] := by
  cases fuel with
  | zero => rfl
  | succ fuel => rw [breakAll, h, ite_self]

/-- Leaves without a closing bracket have no bracket pair. -/
theorem lastPair_eq_none {tail ls : List Leaf} (h : ∀ l ∈ ls, l.isClosing = false) :
    lastPair tail ls = none := by
  induction ls generalizing tail with
  | nil => rfl
  | cons l rest ih =>
    obtain ⟨hFirst, hRest⟩ := List.forall_mem_cons.mp h
    unfold lastPair
    rw [if_neg (by simp [hFirst]), ih hRest]

theorem split_eq_none {limit : Nat} {r : Row} (h : ∀ keep, r.splitAt keep = none) :
    r.split limit = none := by
  unfold split
  generalize (if r.isForced then [] else [0]) ++ _ = keeps
  cases keeps with
  | nil => exact h 0
  | cons keep rest => rw [firstFitting, h]

/-- A row without a closing bracket can only be divided. -/
theorem unbreakable_of_open {limit : Nat} {r : Row} (h : ∀ l ∈ r.leaves, l.isClosing = false)
    (hDivide : r.divide = none) : r.IsUnbreakable limit := by
  have hSplit : r.split limit = none := by
    refine split_eq_none fun keep => ?_
    rw [splitAt, lastPair_eq_none fun l hl => h l (List.mem_reverse.mp (List.mem_of_mem_drop hl))]
    rfl
  rw [IsUnbreakable, break?, hDivide, hSplit]
  simp

theorem length_text {r : Row} {l : Leaf} {ls : List Leaf} (h : r.leaves = l :: ls) :
    r.text.length = 4 * r.depth + l.text.length + (following ls).length := by
  rw [text, h]
  simp [margin]

theorem text_ne_of_length {r s : Row} (h : r.text.length ≠ s.text.length) :
    (r.text == s.text) = false := by
  rw [beq_eq_false_iff_ne]
  exact fun hSame => h (congrArg String.length hSame)

end Row

section

variable (limit depth : Nat) (callee first second : String)

/-! ## The three ways -/

def pairLeaves : List Leaf := callLeaves callee [[.plain first], [.plain second]]

/-- The second argument, with the blank that follows a comma. -/
def secondLeaf : Leaf := ⟨second, .plain, true⟩

def wholeRow : Row := ⟨depth, .whole, false, pairLeaves callee first second⟩

def headRow : Row := ⟨depth, .head, false, [.plain callee, .openCall]⟩

def tailRow : Row := ⟨depth, .tail, false, [.closing ")"]⟩

/-- Both arguments on one line. -/
def joinedRow : Row := ⟨depth, .body, false, [.plain first, .comma, secondLeaf second]⟩

/-- An argument on a line of its own. -/
def argumentRow (l : Leaf) : Row := ⟨depth, .body, false, [l, .comma]⟩

def callForms : List (List Row) :=
  [[wholeRow depth callee first second],
    [headRow depth callee, joinedRow (depth + 1) first second, tailRow depth],
    [headRow depth callee, argumentRow (depth + 1) (.plain first),
      argumentRow (depth + 1) (secondLeaf second), tailRow depth]]

/-! ## The first layout -/

theorem unbreakable_headRow : (headRow depth callee).IsUnbreakable limit := by
  refine unbreakable_of_open ?_ rfl
  simp [headRow, Leaf.isClosing, Leaf.plain, Leaf.openCall]

theorem unbreakable_tailRow : (tailRow depth).IsUnbreakable limit := by
  have hSplit : (tailRow depth).split limit = none := by
    refine split_eq_none fun keep => ?_
    cases keep with
    | zero => rfl
    | succ keep => simp [tailRow, splitAt, lastPair]
  rw [IsUnbreakable, break?, hSplit]
  rfl

theorem unbreakable_argumentRow (text : String) (spaced : Bool) :
    (argumentRow depth ⟨text, .plain, spaced⟩).IsUnbreakable limit := by
  refine unbreakable_of_open ?_ rfl
  simp [argumentRow, Leaf.isClosing, Leaf.comma]

theorem breakAll_arguments (fuel : Nat) :
    [argumentRow depth (.plain first), argumentRow depth (secondLeaf second)].flatMap
        (breakAll limit fuel) =
      [argumentRow depth (.plain first), argumentRow depth (secondLeaf second)] := by
  have hFirst := breakAll_of_unbreakable (unbreakable_argumentRow limit depth first false) fuel
  have hSecond := breakAll_of_unbreakable (unbreakable_argumentRow limit depth second true) fuel
  rw [List.flatMap_cons, List.flatMap_cons, List.flatMap_nil, Leaf.plain, secondLeaf, hFirst,
    hSecond]
  rfl

theorem breakAll_joinedRow (fuel : Nat) :
    breakAll limit (fuel + 1) (joinedRow depth first second) = [joinedRow depth first second] ∨
      breakAll limit (fuel + 1) (joinedRow depth first second) =
        [argumentRow depth (.plain first), argumentRow depth (secondLeaf second)] := by
  have hDivide : (joinedRow depth first second).divide =
      some [argumentRow depth (.plain first), argumentRow depth (secondLeaf second)] := rfl
  have hPart : (joinedRow depth first second).part = .body := rfl
  rw [breakAll, break?, if_pos hPart, hDivide]
  simp only [Option.bind_some]
  split
  · exact .inl rfl
  · split
    · rename_i hRows
      split at hRows
      · cases hRows
      · obtain rfl := Option.some.inj hRows
        exact .inr (breakAll_arguments limit depth first second fuel)
    · exact .inl rfl

/-- The split of a call at its brackets; no other pair follows them. -/
theorem split_wholeRow : (wholeRow depth callee first second).split limit =
    some [headRow depth callee, joinedRow (depth + 1) first second, tailRow depth] := by
  have hTrailers :
      trailers limit (4 * depth) 0 0 false (pairLeaves callee first second).reverse = [] := by
    simp [pairLeaves, callLeaves, Leaf.separated, trailers, Leaf.isClosing, Leaf.isOpening,
      Leaf.isComma, Leaf.plain, Leaf.comma, Leaf.openCall, Leaf.closing]
  have hForced : (wholeRow depth callee first second).isForced = false := rfl
  have hSplit : (wholeRow depth callee first second).splitAt 0 =
      some [headRow depth callee, joinedRow (depth + 1) first second, tailRow depth] := rfl
  rw [split, hForced]
  show firstFitting limit _ ([0] ++ trailers limit (4 * depth) 0 0 false
    (pairLeaves callee first second).reverse) = _
  rw [hTrailers]
  simp only [List.append_nil, firstFitting, hSplit, ite_self]

theorem breakAll_between (fuel : Nat) (body : Row) :
    [headRow depth callee, body, tailRow depth].flatMap (breakAll limit fuel) =
      [headRow depth callee] ++ breakAll limit fuel body ++ [tailRow depth] := by
  rw [List.flatMap_cons, List.flatMap_cons, List.flatMap_cons, List.flatMap_nil,
    breakAll_of_unbreakable (unbreakable_headRow limit depth callee),
    breakAll_of_unbreakable (unbreakable_tailRow limit depth)]
  simp

theorem breakAll_wholeRow (fuel : Nat) :
    breakAll limit (fuel + 2) (wholeRow depth callee first second) ∈
      callForms depth callee first second := by
  have hPart : ¬ (wholeRow depth callee first second).part = .body := nofun
  rw [breakAll, break?, if_neg hPart, split_wholeRow]
  simp only [Option.bind_some]
  split
  · simp [callForms]
  · split
    · rename_i hRows
      split at hRows
      · cases hRows
      · obtain rfl := Option.some.inj hRows
        rw [breakAll_between]
        rcases breakAll_joinedRow limit (depth + 1) first second fuel with hBody | hBody <;>
          rw [hBody] <;> simp [callForms]
    · simp [callForms]

/-! ## The second layout -/

/-- The leaves of the last way, with the comma that it adds. -/
def listedLeaves : List Leaf :=
  [.plain callee, .openCall, .plain first, .comma, secondLeaf second, .comma, .closing ")"]

def listedRow : Row := ⟨depth, .whole, false, listedLeaves callee first second⟩

def listedBody : Row := ⟨depth, .body, true, [.plain first, .comma, secondLeaf second, .comma]⟩

theorem mark_lengths : ",".length = 1 ∧ "(".length = 1 ∧ ")".length = 1 ∧ ",)".length = 2 ∧
    " ".length = 1 :=
  ⟨rfl, rfl, rfl, rfl, rfl⟩

theorem breakAll_listedBody (fuel : Nat) :
    breakAll limit (fuel + 1) (listedBody depth first second) =
      [argumentRow depth (.plain first), argumentRow depth (secondLeaf second)] := by
  have hDivide : (listedBody depth first second).divide =
      some [argumentRow depth (.plain first), argumentRow depth (secondLeaf second)] := rfl
  have hPart : (listedBody depth first second).part = .body := rfl
  have hEager : (listedBody depth first second).eager = true := rfl
  -- each of the two lines is shorter than the whole
  have hNew : ([argumentRow depth (.plain first), argumentRow depth (secondLeaf second)].any
      fun row => row.text == (listedBody depth first second).text) = false := by
    have hMarks := mark_lengths
    simp only [List.any_cons, List.any_nil, Bool.or_false, Bool.or_eq_false_iff]
    refine ⟨text_ne_of_length ?_, text_ne_of_length ?_⟩ <;>
      · rw [length_text rfl, length_text rfl]
        simp [argumentRow, listedBody, secondLeaf, following, Leaf.plain, Leaf.comma]
        try omega
  rw [breakAll, break?, if_pos hPart, hDivide, hEager]
  simp only [Option.bind_some, hNew]
  exact breakAll_arguments limit depth first second fuel

/-- The split of a call whose arguments end with a comma. -/
theorem split_listedRow : (listedRow depth callee first second).split limit =
    some [headRow depth callee, listedBody (depth + 1) first second, tailRow depth] := by
  have hTrailers :
      trailers limit (4 * depth) 0 0 false (listedLeaves callee first second).reverse = [] := by
    simp [listedLeaves, trailers, Leaf.isClosing, Leaf.isOpening, Leaf.isComma, Leaf.plain,
      Leaf.comma, Leaf.openCall, Leaf.closing]
  have hForced : (listedRow depth callee first second).isForced = true := rfl
  have hSplit : (listedRow depth callee first second).splitAt 0 =
      some [headRow depth callee, listedBody (depth + 1) first second, tailRow depth] := rfl
  rw [split, hForced]
  show firstFitting limit _ ([] ++ trailers limit (4 * depth) 0 0 false
    (listedLeaves callee first second).reverse) = _
  rw [hTrailers]
  exact hSplit

variable {callee} (hCallee : 2 < callee.length)
include hCallee

theorem breakAll_listedRow (fuel : Nat) :
    breakAll limit (fuel + 2) (listedRow depth callee first second) =
      [headRow depth callee, argumentRow (depth + 1) (.plain first),
        argumentRow (depth + 1) (secondLeaf second), tailRow depth] := by
  have hPart : ¬ (listedRow depth callee first second).part = .body := nofun
  have hForced : (listedRow depth callee first second).isForced = true := rfl
  have hNew : ([headRow depth callee, listedBody (depth + 1) first second, tailRow depth].any
      fun row => row.text == (listedRow depth callee first second).text) = false := by
    have hMarks := mark_lengths
    simp only [List.any_cons, List.any_nil, Bool.or_false, Bool.or_eq_false_iff]
    refine ⟨text_ne_of_length ?_, text_ne_of_length ?_, text_ne_of_length ?_⟩ <;>
      · rw [length_text rfl, length_text rfl]
        simp [headRow, tailRow, listedRow, listedLeaves, listedBody, secondLeaf, following,
          Leaf.plain, Leaf.comma, Leaf.openCall, Leaf.closing]
        try omega
  rw [breakAll, break?, if_neg hPart, split_listedRow, hForced]
  simp only [Option.bind_some, hNew]
  rw [if_neg (by simp), if_neg Bool.false_ne_true]
  simp only
  rw [breakAll_between, breakAll_listedBody]
  rfl

/-- The layout of a call with two plain arguments is one of the three. -/
theorem layOut_pair :
    layOut limit depth (pairLeaves callee first second) ∈ callForms depth callee first second := by
  have hOnce : breakAll limit ((pairLeaves callee first second).length + 1)
      (wholeRow depth callee first second) ∈ callForms depth callee first second :=
    breakAll_wholeRow limit depth callee first second 5
  have hFirst := hOnce
  simp only [callForms, List.mem_cons, List.not_mem_nil, or_false] at hFirst
  rw [wholeRow] at hFirst
  rw [layOut]
  simp only
  rcases hFirst with h | h | h
  · rw [h]
    exact hOnce
  · rw [h]
    exact hOnce
  · rw [h]
    have hLast := breakAll_listedRow limit depth first second hCallee 6
    simp only [callForms, List.mem_cons, List.not_mem_nil, or_false]
    exact .inr (.inr hLast)

end

end EntityGraph.Handlers
