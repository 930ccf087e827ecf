import EntityGraph.Markup.Token.Lexer
import EntityGraph.Proofs.Markup.Mark

/-!
# Blanks between tokens

Blanks and line breaks are passed over before a token, and after a plain scalar as well.  A tab is
no such blank: it is left where it stands.

* `IsBlank`, `EndsBlanks`: blanks, and what ends a row of them;
* `Lexer.toNextToken_eq`: the blanks before a token;
* `plainGap_rest`: the blanks after a plain scalar.
-/

namespace EntityGraph.Markup

/-- A blank that may stand before a token. -/
def IsBlank (c : Char) : Prop := c = ' ' ∨ c = '\n' ∨ c = '\r'

/-- A text that starts with neither a blank, a comment nor a byte order mark. -/
def EndsBlanks (cs : List Char) : Prop :=
  ∀ c, cs.head? = some c → isSpaceChar c = false ∧ isBreak c = false ∧ c ≠ '#' ∧ c ≠ '\uFEFF'

theorem EndsBlanks.nil : EndsBlanks [] := nofun

theorem EndsBlanks.cons {c : Char} {cs : List Char}
    (h : isSpaceChar c = false ∧ isBreak c = false ∧ c ≠ '#' ∧ c ≠ '\uFEFF') :
    EndsBlanks (c :: cs) := by
  intro d hd
  exact Option.some.inj hd ▸ h

theorem IsBlank.isBreak {c : Char} (h : IsBlank c) (hSpace : isSpaceChar c = false) :
    isBreak c = true := by
  rcases h with rfl | rfl | rfl
  · cases hSpace
  all_goals decide

theorem IsBlank.ne {c : Char} (h : IsBlank c) : c ≠ '#' ∧ c ≠ '-' ∧ c ≠ '.' ∧ c ≠ '\uFEFF' := by
  rcases h with rfl | rfl | rfl <;> decide

variable {m : Mark} {g cs : List Char} {c : Char}

/-! ## Line breaks -/

/-- A line break takes some of the characters before one that is no break. -/
theorem Mark.lineBreak_eq (h : m.after = c :: (g ++ cs)) (hc : isBreak c = true)
    (hcs : ∀ d, cs.head? = some d → isBreak d = false) :
    ∃ v w, c :: g = v ++ w ∧ v ≠ [] ∧ m.lineBreak.2 = m.skip v.length := by
  by_cases hPair : c = '\r' ∧ (g ++ cs).head? = some '\n'
  · obtain ⟨rfl, hFeed⟩ := hPair
    cases g with
    | nil => exact absurd (hcs _ hFeed) (by decide)
    | cons d g =>
      obtain rfl : d = '\n' := Option.some.inj hFeed
      refine ⟨['\r', '\n'], g, rfl, by simp, ?_⟩
      rw [lineBreak, h]
      rfl
  · refine ⟨[c], g, rfl, by simp, ?_⟩
    unfold lineBreak
    rw [h]
    split
    · rename_i hEq
      obtain ⟨rfl, hRest⟩ := List.cons.inj hEq
      exact absurd ⟨rfl, by rw [hRest]; rfl⟩ hPair
    · rename_i hEq
      obtain ⟨rfl, -⟩ := List.cons.inj hEq
      rw [hc]
      split <;> rfl
    · rename_i hEq
      cases hEq

theorem isSeparator_eq_false (h : ∀ c, m.peek = some c → c ≠ '-' ∧ c ≠ '.') :
    m.isSeparator = false := by
  unfold Mark.isSeparator
  split
  · rename_i hEq
    exact absurd rfl (h '-' (Mark.peek_eq hEq)).1
  · rename_i hEq
    exact absurd rfl (h '.' (Mark.peek_eq hEq)).2
  · rfl

theorem isSeparator_of_blanks (hg : ∀ c ∈ g, IsBlank c)
    (hStart : ∀ c, cs.head? = some c → c ≠ '-' ∧ c ≠ '.') (h : m.after = g ++ cs) :
    m.isSeparator = false := by
  refine isSeparator_eq_false fun c hc => ?_
  rw [Mark.peek, h] at hc
  cases g with
  | nil => exact hStart c hc
  | cons d g =>
    obtain rfl : d = c := Option.some.inj hc
    exact (hg d List.mem_cons_self).ne.2.imp_right And.left

/-- The blanks after a line break take up fewer characters. -/
theorem lineBreak_rest {w : List Char} (hcs : EndsBlanks cs) (h : m.after = c :: (w ++ cs))
    (hc : isBreak c = true) :
    ∃ v w', c :: w = v ++ w' ∧ w'.length ≤ w.length ∧ m.lineBreak.2 = m.skip v.length ∧
      (m.skip v.length).after = w' ++ cs := by
  obtain ⟨v, w', hEq, hSome, hLine⟩ := Mark.lineBreak_eq h hc fun d hd => (hcs d hd).2.1
  refine ⟨v, w', hEq, ?_, hLine, Mark.skip_after ?_⟩
  · have hTotal := congrArg List.length hEq
    have hPart := List.length_pos_iff.mpr hSome
    simp only [List.length_append, List.length_cons] at hTotal
    omega
  · rw [h, ← List.append_assoc, ← hEq, List.cons_append]

/-! ## Before a token -/

section

variable (hg : ∀ c ∈ g, IsBlank c) (hcs : EndsBlanks cs)
include hg hcs

/-- A row of blanks is some spaces, and perhaps a line break with more blanks after it. -/
theorem span_spaces (h : m.after = g ++ cs) :
    ∃ v w, g = v ++ w ∧ m.span isSpaceChar = (v, m.skip v.length) ∧
      (m.skip v.length).peek ≠ some '#' ∧ (w = [] ∨ ∃ c w', w = c :: w' ∧ isBreak c = true) := by
  have hRest : g.dropWhile isSpaceChar = [] ∨
      ∃ c w, g.dropWhile isSpaceChar = c :: w ∧ c ∈ g ∧ isSpaceChar c = false := by
    cases hDrop : g.dropWhile isSpaceChar with
    | nil => exact .inl rfl
    | cons c w =>
      have hFirst : (g.dropWhile isSpaceChar).head? = some c := by rw [hDrop]; rfl
      refine .inr ⟨c, w, rfl, (List.dropWhile_sublist _).subset (List.mem_of_head? hFirst), ?_⟩
      simpa [hFirst] using List.head?_dropWhile_not isSpaceChar g
  have hSpan : m.after = g.takeWhile isSpaceChar ++ (g.dropWhile isSpaceChar ++ cs) := by
    rw [← List.append_assoc, List.takeWhile_append_dropWhile, h]
  have hHead : ∀ c, (g.dropWhile isSpaceChar ++ cs).head? = some c →
      isSpaceChar c = false ∧ c ≠ '#' := by
    intro c hc
    rcases hRest with hDrop | ⟨d, w, hDrop, hMem, hSpace⟩
    · rw [hDrop, List.nil_append] at hc
      exact ⟨(hcs c hc).1, (hcs c hc).2.2.1⟩
    · rw [hDrop, List.cons_append, List.head?_cons, Option.some.injEq] at hc
      exact hc ▸ ⟨hSpace, (hg d hMem).ne.1⟩
  refine ⟨g.takeWhile isSpaceChar, g.dropWhile isSpaceChar,
    (List.takeWhile_append_dropWhile).symm, ?_, ?_, ?_⟩
  · exact Mark.span_eq hSpan (fun c hc => by simpa using List.mem_takeWhile_imp hc)
      fun c hc => (hHead c hc).1
  · rw [Mark.peek, Mark.skip_after hSpan]
    exact fun hc => (hHead '#' hc).2 rfl
  · rcases hRest with hDrop | ⟨c, w, hDrop, hMem, hSpace⟩
    · exact .inl hDrop
    · exact .inr ⟨c, w, hDrop, (hg c hMem).isBreak hSpace⟩

namespace Lexer

theorem skipGaps_eq {fuel : Nat} {l : Lexer} (h : l.mark.after = g ++ cs)
    (hFuel : g.length < fuel) :
    ∃ allowed, (l.keyAllowed = true → allowed = true) ∧
      skipGaps fuel l = { l with mark := l.mark.skip g.length, keyAllowed := allowed } := by
  induction fuel generalizing l g with
  | zero => exact absurd hFuel (Nat.not_lt_zero _)
  | succ fuel ih =>
    obtain ⟨v, w, rfl, hSpan, hNone, hRest⟩ := span_spaces hg hcs h
    have hSkip : skipComment l.mark = l.mark.skip v.length := by
      rw [skipComment, Mark.skipWhile, hSpan]
      exact if_neg hNone
    rw [List.append_assoc] at h
    have hAfter := Mark.skip_after h
    rcases hRest with rfl | ⟨c, w, rfl, hBreak⟩
    · have hEnd : (l.mark.skip v.length).peek.any isBreak = false := by
        rw [Mark.peek, hAfter, List.nil_append]
        cases hHead : cs.head? with
        | none => rfl
        | some c => exact (hcs c hHead).2.1
      refine ⟨l.keyAllowed, id, ?_⟩
      simp only [skipGaps, hSkip, hEnd, Bool.false_eq_true, if_false, List.append_nil]
    · have hPeek : (l.mark.skip v.length).peek.any isBreak = true := by
        rw [Mark.peek, hAfter]
        simpa using hBreak
      obtain ⟨b, w', hEq, hLength, hLine, hNext⟩ := lineBreak_rest hcs hAfter hBreak
      have hBlank : ∀ c ∈ w', IsBlank c := fun c hc => hg c (by rw [hEq]; simp [hc])
      simp only [List.length_append, List.length_cons] at hFuel
      obtain ⟨allowed, hKept, hGaps⟩ := ih hBlank
        (l := { l with
          mark := (l.mark.skip v.length).skip b.length
          keyAllowed := l.keyAllowed || !l.inFlow }) hNext (by omega)
      refine ⟨allowed, fun hAllowed => hKept (by simp [hAllowed]), ?_⟩
      rw [skipGaps, hSkip]
      simp only [hPeek, if_true, hLine]
      rw [hGaps, hEq, ← List.append_assoc, Mark.skip_append, Mark.skip_append]

/-- Before a token all blanks are passed over. -/
theorem toNextToken_eq {l : Lexer} (hSized : l.mark.Sized) (h : l.mark.after = g ++ cs) :
    ∃ allowed, (l.keyAllowed = true → allowed = true) ∧
      l.toNextToken = { l with mark := l.mark.skip g.length, keyAllowed := allowed } := by
  have hNoMark : l.mark.peek ≠ some '\uFEFF' := by
    rw [Mark.peek, h]
    intro hHead
    cases g with
    | nil => exact (hcs _ hHead).2.2.2 rfl
    | cons c g =>
      obtain rfl : c = '\uFEFF' := Option.some.inj hHead
      exact (hg _ List.mem_cons_self).ne.2.2.2 rfl
  have hFuel : g.length < l.mark.left + 1 := by
    rw [hSized, h, List.length_append]
    omega
  have hGaps := skipGaps_eq hg hcs h hFuel
  simpa [toNextToken, hNoMark] using hGaps

end Lexer

/-! ## After a plain scalar -/

theorem plainBreaks_rest {fuel : Nat} (h : m.after = g ++ cs) (hFuel : g.length ≤ fuel)
    (hStart : ∀ c, cs.head? = some c → c ≠ '-' ∧ c ≠ '.') :
    ∃ breaks, plainBreaks fuel m = (some breaks, m.skip g.length) := by
  induction fuel generalizing m g with
  | zero =>
    obtain rfl := List.eq_nil_of_length_eq_zero (Nat.le_zero.mp hFuel)
    exact ⟨[], rfl⟩
  | succ fuel ih =>
    cases g with
    | nil =>
      rw [List.nil_append] at h
      refine ⟨[], ?_⟩
      cases cs with
      | nil => simp only [plainBreaks, Mark.peek, h, List.head?_nil, Mark.skip_nil]
      | cons d cs =>
        have hd := hcs d rfl
        have hSpace : d ≠ ' ' := by simpa [isSpaceChar] using hd.1
        simp only [plainBreaks, Mark.peek, h, List.head?_cons, hSpace, hd.2.1, if_false,
          Bool.false_eq_true, Mark.skip_nil]
    | cons d w =>
      have hPeek : m.peek = some d := Mark.peek_eq h
      rw [List.length_cons] at hFuel
      by_cases hSpace : d = ' '
      · subst hSpace
        obtain ⟨breaks, hBreaks⟩ := ih (fun c hc => hg c (.tail _ hc)) (Mark.next_after h)
          (by omega)
        exact ⟨breaks, by simp only [plainBreaks, hPeek, if_true, hBreaks, Mark.skip_cons]⟩
      · have hBreak := (hg d List.mem_cons_self).isBreak (by simpa [isSpaceChar] using hSpace)
        obtain ⟨b, w', hEq, hLength, hLine, hNext⟩ := lineBreak_rest hcs h hBreak
        have hBlank : ∀ c ∈ w', IsBlank c := fun c hc => hg c (by rw [hEq]; simp [hc])
        have hSeparator := isSeparator_of_blanks hBlank hStart hNext
        obtain ⟨breaks, hBreaks⟩ := ih hBlank hNext (by omega)
        refine ⟨m.lineBreak.1 ++ breaks, ?_⟩
        rw [hEq, Mark.skip_append]
        simp only [plainBreaks, hPeek, hSpace, hBreak, if_false, if_true, hLine, hSeparator,
          hBreaks, Bool.false_eq_true, Option.map_some]

/-- After a plain scalar all blanks are passed over. -/
theorem plainGap_rest (hSized : m.Sized) (h : m.after = g ++ cs)
    (hStart : ∀ c, cs.head? = some c → c ≠ '-' ∧ c ≠ '.') :
    (plainGap m).2.1 = m.skip g.length := by
  obtain ⟨v, w, rfl, hSpan, -, hRest⟩ := span_spaces hg hcs h
  rw [List.append_assoc] at h
  have hAfter := Mark.skip_after h
  rcases hRest with rfl | ⟨c, w, rfl, hBreak⟩
  · have hEnd : (m.skip v.length).peek.any isBreak = false := by
      rw [Mark.peek, hAfter, List.nil_append]
      cases hHead : cs.head? with
      | none => rfl
      | some c => exact (hcs c hHead).2.1
    simp only [plainGap, hSpan, hEnd, Bool.false_eq_true, if_false, List.append_nil]
  · have hPeek : (m.skip v.length).peek.any isBreak = true := by
      rw [Mark.peek, hAfter]
      simpa using hBreak
    obtain ⟨b, w', hEq, -, hLine, hNext⟩ := lineBreak_rest hcs hAfter hBreak
    have hBlank : ∀ c ∈ w', IsBlank c := fun c hc => hg c (by rw [hEq]; simp [hc])
    have hSeparator := isSeparator_of_blanks hBlank hStart hNext
    have hAll : (m.skip v.length).after = b ++ (w' ++ cs) := by
      rw [hAfter, ← List.append_assoc, ← hEq]
    have hFuel : w'.length ≤ ((m.skip v.length).skip b.length).left := by
      rw [(hSized.skip h).left_skip hAll, List.length_append]
      omega
    obtain ⟨breaks, hBreaks⟩ := plainBreaks_rest hBlank hcs hNext hFuel hStart
    rw [hEq, ← List.append_assoc, Mark.skip_append, Mark.skip_append]
    simp only [plainGap, hSpan, hPeek, if_true, hLine, hSeparator, Bool.false_eq_true, if_false,
      hBreaks]

end

end EntityGraph.Markup
