import EntityGraph.Proofs.Markup.Standing

/-!
# Plain scalars of one word

A plain scalar ends where a character follows that no plain scalar may hold, and the blanks in
between are passed over with it.

* `IsWordChar`: the characters that every plain scalar may hold, whatever follows them;
* `readPlain_word`: a word is read as it is;
* `Lexer.Stands.yields_plain`: the token of a word.
-/

namespace EntityGraph.Markup

/-- A character that a plain scalar may hold whatever follows it. -/
def IsWordChar (c : Char) : Prop :=
  endsWord (some c) = false ∧ c ≠ ':' ∧ c ≠ '?' ∧ isFlowChar c = false

instance : DecidablePred IsWordChar := fun c =>
  inferInstanceAs (Decidable (endsWord (some c) = false ∧ c ≠ ':' ∧ c ≠ '?' ∧ isFlowChar c = false))

variable {m : Mark} {inFlow : Bool} {w a cs : List Char}

theorem IsWordChar.endsPlainWord {c : Char} (h : IsWordChar c) (following : Option Char) :
    endsPlainWord inFlow c following = false := by
  obtain ⟨hWord, hColon, hQuestion, hFlow⟩ := h
  simp [Markup.endsPlainWord, hWord, hColon, hQuestion, hFlow]

theorem plainWord_append (hw : ∀ c ∈ w, IsWordChar c) (hcs : plainWord inFlow cs = []) :
    plainWord inFlow (w ++ cs) = w := by
  induction w with
  | nil => exact hcs
  | cons c w ih =>
    have hFirst : endsPlainWord inFlow c (w ++ cs).head? = false :=
      (hw c List.mem_cons_self).endsPlainWord _
    rw [List.cons_append, plainWord, hFirst, ih fun d hd => hw d (.tail _ hd)]
    rfl

theorem plainWord_of_blank {c : Char} (hc : IsBlank c) : plainWord inFlow (c :: cs) = [] := by
  have hEnds : endsPlainWord inFlow c cs.head? = true := by
    rcases hc with rfl | rfl | rfl <;> simp [endsPlainWord, endsWord, endsItem, endsLine, isBreak]
  rw [plainWord, hEnds]
  rfl

theorem plainWord_blanks (ha : ∀ c ∈ a, IsBlank c) (hcs : plainWord inFlow cs = []) :
    plainWord inFlow (a ++ cs) = [] := by
  cases a with
  | nil => exact hcs
  | cons c a => exact plainWord_of_blank (ha c List.mem_cons_self)

/-- A text at which a plain scalar ends. -/
structure EndsPlain (inFlow : Bool) (cs : List Char) : Prop where
  blanks : EndsBlanks cs
  word : plainWord inFlow cs = []
  start : ∀ c, cs.head? = some c → c ≠ '-' ∧ c ≠ '.'

theorem plainWords_end {indent : Int} {fuel : Nat} {gap : List Char} {stop : Mark} {ended : Bool}
    (hcs : EndsPlain inFlow m.after) :
    plainWords inFlow indent fuel gap stop m ended = ⟨[], stop, m, ended⟩ := by
  cases fuel with
  | zero => rfl
  | succ fuel => simp [plainWords, hcs.word]

theorem readPlain_word (indent : Int) (hSized : m.Sized) (h : m.after = w ++ (a ++ cs))
    (hSome : w ≠ []) (hw : ∀ c ∈ w, IsWordChar c) (hComment : m.peek ≠ some '#')
    (ha : ∀ c ∈ a, IsBlank c) (hcs : EndsPlain inFlow cs) :
    ∃ ended, readPlain inFlow indent m =
      ⟨w, m.skip w.length, (m.skip w.length).skip a.length, ended⟩ := by
  have hWord : plainWord inFlow m.after = w := by
    rw [h, plainWord_append hw (plainWord_blanks ha hcs.word)]
  have hGap := plainGap_rest ha hcs.blanks (hSized.skip h) (Mark.skip_after h) hcs.start
  have hAfter := Mark.skip_after (Mark.skip_after h)
  obtain ⟨fuel, hFuel⟩ : ∃ fuel, m.left = fuel + 1 := by
    refine Nat.exists_eq_add_one.mpr ?_
    rw [hSized, h, List.length_append]
    exact Nat.lt_of_lt_of_le (List.length_pos_iff.mpr hSome) (Nat.le_add_right _ _)
  have hEmpty : w.isEmpty = false := by simpa using hSome
  refine ⟨(plainGap (m.skip w.length)).2.2, ?_⟩
  rw [readPlain, hFuel, plainWords]
  simp only [hComment, if_false, hWord, hEmpty, Bool.false_eq_true, hGap, List.nil_append]
  split
  · rfl
  · rw [plainWords_end (by rw [hAfter]; exact hcs), List.append_nil]

namespace Lexer

variable {F K : Prop} {n : Nat} {keys : Bool} {c : Char} {l : Lexer} {ss : List Symbol}

/-- A character that can only start a plain scalar. -/
def StartsWord (c : Char) : Prop :=
  endsWord (some c) = false ∧ indicators.contains c = false ∧ c ≠ '.'

instance : DecidablePred StartsWord := fun c => inferInstanceAs
  (Decidable (endsWord (some c) = false ∧ indicators.contains c = false ∧ c ≠ '.'))

theorem fetchAt_word (h : l.mark.peek = some c) (hc : StartsWord c) :
    l.fetchAt c = l.fetchPlain := by
  obtain ⟨hWord, hIndicator, hPoint⟩ := hc
  have hStarts : startsPlain l.inFlow l.mark = true := by
    simp only [startsPlain, h, hWord, hIndicator, Bool.or_self, Bool.not_false, Bool.true_or]
  have hNe : ∀ d, indicators.contains d = true → c ≠ d := by
    rintro d hd rfl
    exact Bool.false_ne_true (hIndicator.symm.trans hd)
  simp only [fetchAt, hNe '%' (by decide), hNe '-' (by decide), hNe '[' (by decide),
    hNe '\x7b' (by decide), hNe ']' (by decide), hNe '\x7d' (by decide), hNe ',' (by decide),
    hNe '?' (by decide), hNe ':' (by decide), hNe '*' (by decide), hNe '&' (by decide),
    hNe '!' (by decide), hNe '|' (by decide), hNe '>' (by decide), hNe '\'' (by decide),
    hNe '"' (by decide), hPoint, hStarts, decide_false, Bool.false_and, Bool.false_eq_true,
    if_false, if_true]

/-- A hyphen with a character after it that is neither a hyphen nor the end of a word. -/
theorem fetchAt_hyphen {d : Char} (h : l.mark.after = '-' :: d :: cs)
    (hd : endsWord (some d) = false) (hHyphen : d ≠ '-') : l.fetchAt '-' = l.fetchPlain := by
  have hNext : l.mark.peekAt 1 = some d := by rw [Mark.peekAt_one h, List.head?_cons]
  have hSeparator : l.mark.isSeparator = false := by
    unfold Mark.isSeparator
    rw [h]
    split
    · rename_i hEq
      exact absurd (List.cons.inj (List.cons.inj hEq).2).1 hHyphen
    · rename_i hEq
      exact absurd (List.cons.inj hEq).1 (by decide)
    · rfl
  have hStarts : startsPlain l.inFlow l.mark = true := by
    simp [startsPlain, Mark.peek_eq h, hNext, hd]
  simp [fetchAt, hNext, hd, hSeparator, hStarts]

theorem Stands.yields_plain (h : Stands n keys (c :: w ++ (a ++ cs)) l)
    (hBlanks : EndsBlanks (c :: w ++ (a ++ cs))) (hw : ∀ d ∈ c :: w, IsWordChar d)
    (ha : ∀ c ∈ a, IsBlank c) (hcs : EndsPlain (n > 0) cs)
    (hFetch : ∀ {l : Lexer}, l.mark.after = c :: w ++ (a ++ cs) → l.fetchAt c = l.fetchPlain)
    (hNext : ∀ l, Stands n false cs l → Yields F K l (symbols l.queue ++ ss)) :
    Yields F K l (symbols l.queue ++ .scalar (pointsOf (c :: w)) true :: ss) := by
  refine h.yields hBlanks (fun {l} hStands hAfter => ?_) hNext
  have hAfter : l.mark.after = c :: w ++ (a ++ cs) := hAfter
  have hComment : l.mark.peek ≠ some '#' := by
    rw [Mark.peek, hAfter]
    exact fun hc => (hBlanks '#' hc).2.2.1 rfl
  have hFlow : l.inFlow = decide (n > 0) := by rw [inFlow, hStands.level]
  obtain ⟨candidates, hOptional, hWith⟩ := hStands.withCandidate_eq
  obtain ⟨ended, hRead⟩ := readPlain_word (l.indent + 1) hStands.sized hAfter
    (List.cons_ne_nil c w) hw hComment ha hcs
  have hAll : l.mark.after = (c :: w ++ a) ++ cs := by rw [hAfter, List.append_assoc]
  have hReads : Reads n false cs (.scalar (pointsOf (c :: w)) true) l { l with
      candidates, flowLevel := n, keyAllowed := ended, mark := l.mark.skip (c :: w ++ a).length
      queue := l.queue ++ [⟨_, l.mark, l.mark.skip (c :: w).length⟩] } :=
    .push _ hStands hOptional (by simp) (fun hNo => absurd hNo Bool.false_ne_true)
      (hStands.sized.skip hAll) ⟨[], List.forall_mem_nil _, Mark.skip_after hAll⟩
      (hStands.sized.left_skip_lt hAll (by simp))
  refine ⟨_, ?_, hReads⟩
  rw [hFetch hAfter, fetchPlain, hStands.saveCandidate_eq, hWith]
  show Except.ok { push { l with candidates } (.scalar (pointsOf
      (readPlain l.inFlow (l.indent + 1) l.mark).contents) true) l.mark
      (readPlain l.inFlow (l.indent + 1) l.mark).stop with
    keyAllowed := (readPlain l.inFlow (l.indent + 1) l.mark).endsWithLine
    mark := (readPlain l.inFlow (l.indent + 1) l.mark).rest } = _
  rw [hFlow, hRead, Mark.skip_append, ← hStands.level]
  rfl

end Lexer

end EntityGraph.Markup
