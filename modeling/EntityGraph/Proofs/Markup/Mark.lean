import EntityGraph.Markup.Mark
import Mathlib.Data.List.TakeWhile

/-!
# Moving marks

A mark that is moved past some characters counts them, and it counts a line for every break among
them that no line feed follows.

* `Mark.Sized`: a mark that knows how many characters follow it;
* `Mark.skip_append`: a mark moved past two rows of characters;
* `Mark.line_skip`, `Mark.line_skip_lt`: the line of a mark that is moved past no break, or past
  one.
-/

namespace EntityGraph.Markup.Mark

variable {m : Mark} {w v cs : List Char}

/-- A mark that knows how many characters follow it. -/
def Sized (m : Mark) : Prop := m.left = m.after.length

theorem start_sized (cs : List Char) : (start cs).Sized := rfl

theorem skip_add (m : Mark) (a b : Nat) : m.skip (a + b) = (m.skip a).skip b := by
  induction a generalizing m with
  | zero => rw [Nat.zero_add, skip]
  | succ a ih => rw [Nat.succ_add, skip, skip, ih]

theorem skip_append (m : Mark) (w v : List Char) :
    m.skip (w ++ v).length = (m.skip w.length).skip v.length := by
  rw [List.length_append, skip_add]

@[simp] theorem skip_cons (m : Mark) (c : Char) (w : List Char) :
    m.skip (c :: w).length = m.next.skip w.length := rfl

@[simp] theorem skip_nil (m : Mark) : m.skip ([] : List Char).length = m := rfl

/-! ## One character -/

section

variable {c : Char}

theorem next_after (h : m.after = c :: cs) : m.next.after = cs := by simp [next, h]

theorem next_index (h : m.after = c :: cs) : m.next.index = m.index + 1 := by simp [next, h]

theorem next_left (h : m.after = c :: cs) : m.next.left = m.left - 1 := by simp [next, h]

theorem next_line (h : m.after = c :: cs) :
    m.next.line = if startsLine c cs.head? then m.line + 1 else m.line := by
  simp [next, h]

theorem Sized.next (hSized : m.Sized) (h : m.after = c :: cs) : m.next.Sized := by
  unfold Sized
  rw [next_left h, next_after h, hSized, h, List.length_cons, Nat.add_sub_cancel]

theorem Sized.next_lt (hSized : m.Sized) (h : m.after = c :: cs) : m.next.left < m.left := by
  have hLength := congrArg List.length h
  rw [List.length_cons, ← hSized] at hLength
  rw [next_left h]
  omega

theorem peek_eq (h : m.after = c :: cs) : m.peek = some c := by rw [peek, h, List.head?_cons]

theorem peekAt_one (h : m.after = c :: cs) : m.peekAt 1 = cs.head? := by
  rw [peekAt, h, List.getElem?_cons_succ, List.head?_eq_getElem?]

end

/-! ## Rows of characters -/

theorem skip_after (h : m.after = w ++ cs) : (m.skip w.length).after = cs := by
  induction w generalizing m with
  | nil => exact h
  | cons c w ih => exact ih (next_after h)

theorem skip_index (h : m.after = w ++ cs) : (m.skip w.length).index = m.index + w.length := by
  induction w generalizing m with
  | nil => rfl
  | cons c w ih =>
    rw [skip_cons, ih (next_after h), next_index h, List.length_cons]
    omega

theorem Sized.skip (hSized : m.Sized) (h : m.after = w ++ cs) : (m.skip w.length).Sized := by
  induction w generalizing m with
  | nil => exact hSized
  | cons c w ih => exact ih (hSized.next h) (next_after h)

theorem Sized.left_skip (hSized : m.Sized) (h : m.after = w ++ cs) :
    (m.skip w.length).left = cs.length := by
  rw [hSized.skip h, skip_after h]

theorem Sized.left_skip_lt (hSized : m.Sized) (h : m.after = w ++ cs) (hw : w ≠ []) :
    (m.skip w.length).left < m.left := by
  have hPart := List.length_pos_iff.mpr hw
  rw [hSized.left_skip h, hSized, h, List.length_append]
  omega

/-- Past no break a mark stays on its line. -/
theorem line_skip (h : m.after = w ++ cs) (hw : ∀ c ∈ w, isBreak c = false) :
    (m.skip w.length).line = m.line := by
  induction w generalizing m with
  | nil => rfl
  | cons c w ih =>
    have h : m.after = c :: (w ++ cs) := h
    have hFirst : startsLine c (w ++ cs).head? = false := by
      simp [startsLine, hw c List.mem_cons_self]
    rw [skip_cons, ih (next_after h) fun b hb => hw b (.tail _ hb), next_line h, hFirst]
    rfl

theorem line_le_skip (h : m.after = w ++ cs) : m.line ≤ (m.skip w.length).line := by
  induction w generalizing m with
  | nil => exact Nat.le_refl _
  | cons c w ih =>
    refine Nat.le_trans ?_ (ih (next_after h))
    rw [next_line h]
    split <;> omega

/-- Past a break a mark comes to another line, unless a line feed follows that belongs to it. -/
theorem line_skip_lt {c : Char} (h : m.after = w ++ c :: cs) (hc : isBreak c = false)
    (hw : ∃ b ∈ w, isBreak b = true) : m.line < (m.skip w.length).line := by
  induction w generalizing m with
  | nil => simp at hw
  | cons b w ih =>
    have h : m.after = b :: (w ++ c :: cs) := h
    rw [skip_cons]
    by_cases hRest : ∃ b' ∈ w, isBreak b' = true
    · refine Nat.lt_of_le_of_lt ?_ (ih (next_after h) hRest)
      rw [next_line h]
      split <;> omega
    · have hBreak : isBreak b = true := by
        obtain ⟨b', hb', hBreak⟩ := hw
        rcases List.mem_cons.mp hb' with rfl | hb'
        · exact hBreak
        · exact absurd ⟨b', hb', hBreak⟩ hRest
      -- no break follows, so no line feed does
      have hHead : (w ++ c :: cs).head? ≠ some '\n' := by
        intro hFeed
        have hLine : isBreak '\n' = true := by decide
        cases w with
        | nil =>
          obtain rfl : c = '\n' := Option.some.inj hFeed
          rw [hLine] at hc
          cases hc
        | cons b' w =>
          obtain rfl : b' = '\n' := Option.some.inj hFeed
          exact hRest ⟨_, List.mem_cons_self, hLine⟩
      have hStarts : startsLine b (w ++ c :: cs).head? = true := by
        simp only [startsLine, hBreak, hHead, decide_false, Bool.and_false, Bool.not_false,
          Bool.and_self]
      refine Nat.lt_of_lt_of_le ?_ (line_le_skip (next_after h))
      rw [next_line h, hStarts]
      exact Nat.lt_succ_self _

/-! ## Spans -/

theorem span_eq {p : Char → Bool} (h : m.after = w ++ cs) (hw : ∀ c ∈ w, p c = true)
    (hcs : ∀ c, cs.head? = some c → p c = false) : m.span p = (w, m.skip w.length) := by
  have hTake : m.after.takeWhile p = w := by
    rw [h, List.takeWhile_append_of_pos hw]
    cases cs with
    | nil => simp
    | cons c cs => simp [hcs c rfl]
  simp only [span, hTake]

end EntityGraph.Markup.Mark
