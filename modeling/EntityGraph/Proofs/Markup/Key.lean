import EntityGraph.Proofs.Markup.Standing

/-!
# Keys before a colon

What stands before a colon in a flow mapping becomes a key only if it starts on the same line and is
not too far away.  The token of the key then comes before it; otherwise there is none, and the colon
stands on its own.

* `Lexer.isNear`: the keys that their colon makes keys;
* `Lexer.Stands.yields_content`: a token that may start a key, where no colon follows;
* `Lexer.Stands.yields_key`: the same before a colon.
-/

namespace EntityGraph.Markup.Lexer

variable {F K : Prop} {n : Nat} {keys : Bool} {c : Char} {w a cs : List Char}
  {l l' : Lexer} {s : Symbol} {ss : List Symbol} {read : Mark → Except Failure (Symbol × Mark)}

/-- A lexer that has read a token that may start a key. -/
def content (l : Lexer) (s : Symbol) (rest : Mark) : Lexer :=
  { l.withCandidate.push s l.mark rest with keyAllowed := false, mark := rest }

namespace Stands

theorem withCandidate_of_keys (h : Stands n true cs l) :
    l.withCandidate = { l with candidates :=
      l.dropCandidate.candidates ++ [(n, ⟨l.nextPlace, false, l.mark⟩)] } := by
  rw [withCandidate, if_pos (h.allowed rfl), h.level]

theorem fetchContent_eq (h : Stands n keys cs l) :
    l.fetchContent read = (read l.mark).map fun p => l.content p.1 p.2 := by
  obtain ⟨candidates, -, hWith⟩ := h.withCandidate_eq
  simp only [fetchContent, h.saveCandidate_eq, content, hWith]
  show (read l.mark >>= fun p => .ok { push { l with candidates } p.1 l.mark p.2 with
    keyAllowed := false, mark := p.2 }) = _
  cases read l.mark <;> rfl

theorem reads_content (h : Stands n keys (c :: w ++ (a ++ cs)) l)
    (hAfter : l.mark.after = c :: w ++ (a ++ cs)) (ha : ∀ b ∈ a, IsBlank b)
    (hSymbol : s ≠ .streamEnd) :
    Reads n false cs s l (l.content s (l.mark.skip (c :: w).length)) := by
  obtain ⟨candidates, hOptional, hWith⟩ := h.withCandidate_eq
  have hNone : false = true → false = true := id
  have hReads : Reads n false cs s l { l with
      candidates := candidates, flowLevel := n, keyAllowed := false
      mark := l.mark.skip (c :: w).length
      queue := l.queue ++ [⟨s, l.mark, l.mark.skip (c :: w).length⟩] } :=
    Reads.push _ h hOptional hSymbol hNone (h.sized.skip hAfter)
      ⟨a, ha, Mark.skip_after hAfter⟩
      (h.sized.left_skip_lt hAfter (List.cons_ne_nil c w))
  rw [content, hWith]
  rw [← h.level] at hReads ⊢
  exact hReads

theorem yields_content (h : Stands n keys (c :: w ++ cs) l) (hcs : EndsBlanks (c :: w ++ cs))
    (hFetch : ∀ l : Lexer, l.fetchAt c = l.fetchContent read) (hSymbol : s ≠ .streamEnd)
    (hRead : ∀ {m : Mark}, m.Sized → m.after = c :: w ++ cs →
      read m = .ok (s, m.skip (c :: w).length))
    (hNext : ∀ l, Stands n false cs l → Yields F K l (symbols l.queue ++ ss)) :
    Yields F K l (symbols l.queue ++ s :: ss) := by
  refine h.yields hcs (fun {l} hStands hAfter => ?_) hNext
  refine ⟨_, ?_, reads_content (a := []) hStands hAfter (List.forall_mem_nil _) hSymbol⟩
  rw [hFetch, hStands.fetchContent_eq, hRead hStands.sized hAfter]
  rfl

end Stands

/-! ## The colon -/

/-- Whether a key of some characters with blanks after it is near enough to its colon. -/
def isNear (w : List Char) : Bool := !w.any isBreak && w.length ≤ keyReach

/-- A lexer with a candidate for a key as its last token, near enough to the colon that follows. -/
structure Awaits (n : Nat) (cs : List Char) (t : Token) (q : List Token) (l : Lexer) : Prop where
  stands : Stands n false (':' :: cs) l
  queue : l.queue = q ++ [t]
  candidate : ∃ older k a, l.candidates = older ++ [(n, k)] ∧ (∀ o ∈ older, o.1 ≠ n) ∧
    k.place = l.taken + q.length ∧ k.mark.line = l.mark.line ∧ (∀ b ∈ a, isBreak b = false) ∧
    l.mark.after = a ++ ':' :: cs ∧ l.mark.index + a.length - k.mark.index ≤ keyReach

theorem isStale_eq_false {k : KeyCandidate} (hLine : k.mark.line = l.mark.line)
    (hIndex : l.mark.index - k.mark.index ≤ keyReach) : l.isStale k = false := by
  simp only [isStale, hLine, bne_self_eq_false, Bool.false_or, decide_eq_false_iff_not]
  omega

theorem find_last {older : List (Nat × KeyCandidate)} {k : KeyCandidate}
    (h : ∀ o ∈ older, o.1 ≠ n) :
    ((older ++ [(n, k)]).find? fun o => o.1 == n) = some (n, k) := by
  have hOlder : (older.find? fun o => o.1 == n) = none := by
    simpa using fun level o ho => h (level, o) ho
  rw [List.find?_append, hOlder]
  simp

/-- The colon has been read. -/
theorem Stands.reads_value (h : Stands n keys (':' :: cs) l) (hAfter : l.mark.after = ':' :: cs) :
    Reads n false cs .value l { l.pushNext .value 1 with keyAllowed := false } := by
  have hReads : Reads n false cs .value l { l with
      candidates := l.candidates, flowLevel := n, keyAllowed := false, mark := l.mark.next
      queue := l.queue ++ [⟨.value, l.mark, l.mark.next⟩] } :=
    h.reads_next hAfter h.optional (by simp) id
  rw [← h.level] at hReads ⊢
  exact hReads

namespace Awaits

variable {t : Token} {q : List Token}

theorem fresh (h : Awaits n cs t q l) : Awaits n cs t q l.withFresh := by
  obtain ⟨older, k, a, hCandidates, hOlder, hPlace, hLine, ha, hAfter, hIndex⟩ := h.candidate
  refine ⟨h.stands.fresh, h.queue, older.filter fun o => !l.isStale o.2, k, a, ?_, ?_, hPlace,
    hLine, ha, hAfter, hIndex⟩
  · have hStale := isStale_eq_false hLine (by omega)
    simp [withFresh, hCandidates, List.filter_append, hStale]
  · exact fun o ho => hOlder o (List.mem_filter.mp ho).1

theorem take {q' : List Token} {t' : Token} (h : Awaits n cs t (t' :: q') l) :
    Awaits n cs t q' l.take := by
  obtain ⟨older, k, a, hCandidates, hOlder, hPlace, hRest⟩ := h.candidate
  refine ⟨h.stands.take, by simp [Lexer.take, h.queue], older, k, a, hCandidates, hOlder, ?_, hRest⟩
  show k.place = l.taken + 1 + q'.length
  rw [hPlace, List.length_cons]
  omega

theorem kind : Kind fun l ss' => ∃ q, Awaits n cs t q l ∧
    ss' = symbols q ++ .key :: t.symbol :: ss where
  isOpen h := h.choose_spec.1.stands.isOpen
  optional h := h.choose_spec.1.stands.optional
  nonempty h := by
    obtain ⟨q, -, rfl⟩ := h
    simp
  fresh h := ⟨_, h.choose_spec.1.fresh, h.choose_spec.2⟩
  take {l ss' t' rest} h hQueue hWaiting := by
    obtain ⟨q, hAwaits, rfl⟩ := h
    have hLast := hAwaits.queue
    cases q with
    | nil =>
      -- the candidate is the first token, which waits
      obtain ⟨older, k, a, hCandidates, -, hPlace, -⟩ := hAwaits.candidate
      simp [isWaiting, hCandidates, hPlace] at hWaiting
    | cons t'' q =>
      rw [hQueue, List.cons_append] at hLast
      obtain ⟨rfl, rfl⟩ := List.cons.inj hLast
      exact ⟨hAwaits.stands.goesOn t' (by simp [hQueue]), _, rfl, q, hAwaits.take, rfl⟩

/-- The candidate is still fresh at the colon. -/
theorem found (h : Awaits n cs t q l) (hArrives : Arrives n false (':' :: cs) l l') :
    ∃ k, l'.candidate? = some k ∧ k.place - l'.taken = q.length := by
  obtain ⟨older, k, a, hCandidates, hOlder, hPlace, hLine, ha, hAfter, hIndex⟩ := h.candidate
  obtain ⟨g, -, hGap, hMark⟩ := hArrives.mark
  obtain rfl : g = a := List.append_cancel_right (hGap.symm.trans hAfter)
  have hStale : l'.isStale k = false := by
    refine isStale_eq_false ?_ ?_
    · rw [hMark, Mark.line_skip hAfter ha, hLine]
    · rw [hMark, Mark.skip_index hAfter]
      exact hIndex
  have hKept : [(n, k)].filter (fun o => !l'.isStale o.2) = [(n, k)] := by simp [hStale]
  refine ⟨k, ?_, by rw [hPlace, hArrives.taken, Nat.add_sub_cancel_left]⟩
  rw [candidate?, hArrives.candidates, hCandidates, List.filter_append, hArrives.stands.level,
    hKept, find_last fun o ho => hOlder o (List.mem_filter.mp ho).1]
  rfl

/-- A lexer at the colon of a key, with the token of the key before the last one. -/
def settled (q : List Token) (t : Token) (mark : Mark) (l' : Lexer) : Lexer :=
  { l'.dropCandidate with keyAllowed := false, queue := q ++ [⟨.key, mark, mark⟩, t] }

theorem settleCandidate_eq (h : Awaits n cs t q l) (hArrives : Arrives n false (':' :: cs) l l')
    (hFlow : l'.inFlow = true) {k : KeyCandidate} (hPlace : k.place - l'.taken = q.length) :
    l'.settleCandidate k = settled q t k.mark l' := by
  have hInserted : l'.dropCandidate.insertAt k.place .key k.mark = { l'.dropCandidate with
      queue := q ++ [⟨.key, k.mark, k.mark⟩, t] } := by
    simp [insertAt, dropCandidate, hPlace, hArrives.queue, h.queue]
  have hFlow : inFlow { l'.dropCandidate with
      queue := q ++ [⟨.key, k.mark, k.mark⟩, t] } = true := hFlow
  rw [settleCandidate, hInserted]
  simp only [hFlow, if_true]
  rfl

theorem stands_settled (h : Awaits n cs t q l) (hArrives : Arrives n false (':' :: cs) l l')
    (mark : Mark) : Stands n false (':' :: cs) (settled q t mark l') := by
  refine { hArrives.stands with
    optional := hArrives.stands.optional.dropCandidate
    allowed := fun hNo => absurd hNo Bool.false_ne_true
    goesOn := fun t' ht' => ?_ }
  simp only [settled, List.mem_append, List.mem_cons, List.not_mem_nil, or_false] at ht'
  rcases ht' with ht' | rfl | rfl
  · exact h.stands.goesOn t' (by simp [h.queue, ht'])
  · simp
  · exact h.stands.goesOn t' (by simp [h.queue])

/-- The token of the key comes before the candidate, and the colon after it. -/
theorem yields (h : Awaits (n + 1) cs t q l)
    (hNext : ∀ l, Stands (n + 1) false cs l → Yields F K l (symbols l.queue ++ ss)) :
    Yields F K l (symbols q ++ .key :: t.symbol :: .value :: ss) := by
  refine yields_of_fetch (kind) (fun {l ss'} hKind => .inr ?_) ⟨q, h, rfl⟩
  obtain ⟨q, hAwaits, rfl⟩ := hKind
  obtain ⟨l', hArrives, hEq⟩ := hAwaits.stands.arrives (.cons (by decide))
  obtain ⟨k, hFound, hPlace⟩ := hAwaits.found hArrives
  have hFlow : l'.inFlow = true := by simp [inFlow, hArrives.stands.level]
  have hValue : l'.fetchHere = .ok ((l'.settleCandidate k).pushNext .value 1) := by
    have hFetch : l'.fetchAt ':' = l'.fetchValue := by simp [fetchAt, hFlow]
    rw [fetchHere_eq hArrives.after, hFetch, fetchValue, hFound]
    rfl
  have hReads := (hAwaits.stands_settled hArrives k.mark).reads_value hArrives.after
  rw [hEq, hValue, hAwaits.settleCandidate_eq hArrives hFlow hPlace]
  refine ⟨_, rfl, ?_⟩
  have hYields := (hNext _ hReads.stands).mono (Nat.succ_le_succ (Nat.le_trans
    (Nat.succ_le_of_lt hReads.left) (hArrives.left_le hAwaits.stands)))
  have hSymbols : symbols (settled q t k.mark l').queue ++ [.value] ++ ss =
      symbols q ++ .key :: t.symbol :: .value :: ss := by simp [settled]
  rw [hReads.queue, hSymbols] at hYields
  exact hYields

end Awaits

/-- A lexer before a colon that is too far from every candidate for a key. -/
structure Passes (n : Nat) (cs : List Char) (l : Lexer) : Prop where
  stands : Stands n false (':' :: cs) l
  stale : ∃ a, l.mark.after = a ++ ':' :: cs ∧ ∀ o ∈ l.candidates, o.1 = n →
    o.2.mark.line < (l.mark.skip a.length).line ∨
      keyReach < (l.mark.skip a.length).index - o.2.mark.index

namespace Passes

theorem kind (hss : ss ≠ []) : Kind fun l ss' => Passes n cs l ∧ ss' = symbols l.queue ++ ss where
  isOpen h := h.1.stands.isOpen
  optional h := h.1.stands.optional
  nonempty h := by simp [h.2, hss]
  fresh h := by
    obtain ⟨a, hAfter, hStale⟩ := h.1.stale
    exact ⟨⟨h.1.stands.fresh, a, hAfter, fun o ho => hStale o (List.mem_filter.mp ho).1⟩, h.2⟩
  take {l ss' t rest} h hQueue _ := by
    obtain ⟨hPasses, rfl⟩ := h
    refine ⟨hPasses.stands.goesOn t (by simp [hQueue]), symbols rest ++ ss, by simp [hQueue], ?_⟩
    exact ⟨⟨hPasses.stands.take, hPasses.stale⟩, by simp [Lexer.take, hQueue]⟩

theorem yields (h : Passes (n + 1) cs l)
    (hNext : ∀ l, Stands (n + 1) false cs l → Yields F K l (symbols l.queue ++ ss)) :
    Yields F K l (symbols l.queue ++ .value :: ss) := by
  refine yields_of_fetch (kind (List.cons_ne_nil _ ss)) (fun {l ss'} hKind => .inr ?_) ⟨h, rfl⟩
  obtain ⟨hPasses, rfl⟩ := hKind
  obtain ⟨l', hArrives, hEq⟩ := hPasses.stands.arrives (.cons (by decide))
  obtain ⟨a, hAfter, hStale⟩ := hPasses.stale
  obtain ⟨g, -, hGap, hMark⟩ := hArrives.mark
  obtain rfl : g = a := List.append_cancel_right (hGap.symm.trans hAfter)
  have hNone : l'.candidate? = none := by
    rw [candidate?, hArrives.candidates, hArrives.stands.level, Option.map_eq_none_iff,
      List.find?_eq_none]
    intro o ho hLevel
    obtain ⟨hOld, hFresh⟩ := List.mem_filter.mp ho
    have hFar := hStale o hOld (by simpa using hLevel)
    simp only [isStale, hMark, Bool.not_eq_true', Bool.or_eq_false_iff, bne_eq_false_iff_eq,
      decide_eq_false_iff_not] at hFresh
    omega
  have hFlow : l'.inFlow = true := by simp [inFlow, hArrives.stands.level]
  have hValue : l'.fetchHere =
      .ok { l'.dropCandidate.pushNext .value 1 with keyAllowed := false } := by
    have hFetch : l'.fetchAt ':' = l'.fetchValue := by simp [fetchAt, hFlow]
    rw [fetchHere_eq hArrives.after, hFetch, fetchValue, hNone]
    simp only [hFlow, Bool.not_true, Bool.false_and, Bool.false_eq_true, if_false, if_true,
      giveUpCandidate_eq hArrives.stands.optional]
    show Except.ok { l'.dropCandidate.pushNext .value 1 with keyAllowed := !l'.inFlow } = _
    rw [hFlow]
    rfl
  have hStands : Stands (n + 1) false (':' :: cs) l'.dropCandidate :=
    { hArrives.stands with optional := hArrives.stands.optional.dropCandidate }
  have hReads := hStands.reads_value hArrives.after
  rw [hEq, hValue]
  refine ⟨_, rfl, ?_⟩
  have hYields := (hNext _ hReads.stands).mono (Nat.succ_le_succ (Nat.le_trans
    (Nat.succ_le_of_lt hReads.left) (hArrives.left_le hPasses.stands)))
  have hSymbols : symbols l'.dropCandidate.queue ++ [.value] ++ ss =
      symbols l.queue ++ .value :: ss := by
    simp [dropCandidate, hArrives.queue]
  rw [hReads.queue, hSymbols] at hYields
  exact hYields

end Passes

/-- The tokens of a key with blanks after it, up to its colon. -/
def keySymbols (s : Symbol) (w a : List Char) : List Symbol :=
  if isNear (w ++ a) then [.key, s, .value] else [s, .value]

namespace Stands

theorem awaits (h : Stands n true (c :: w ++ (a ++ ':' :: cs)) l)
    (hAfter : l.mark.after = c :: w ++ (a ++ ':' :: cs)) (ha : ∀ b ∈ a, IsBlank b)
    (hSymbol : s ≠ .streamEnd) (hNear : isNear (c :: w ++ a) = true) :
    Awaits n cs ⟨s, l.mark, l.mark.skip (c :: w).length⟩ l.queue
      (l.content s (l.mark.skip (c :: w).length)) := by
  have hContent := h.withCandidate_of_keys
  simp only [isNear, Bool.and_eq_true, Bool.not_eq_true', List.any_eq_false, List.mem_append,
    Bool.not_eq_true, decide_eq_true_eq] at hNear
  obtain ⟨hLine, hReach⟩ := hNear
  rw [List.length_append] at hReach
  refine ⟨(h.reads_content hAfter ha hSymbol).stands, by rw [content, hContent]; rfl,
    l.dropCandidate.candidates, ⟨l.nextPlace, false, l.mark⟩, a, by rw [content, hContent]; rfl,
    ?_, by rw [content, hContent]; rfl, ?_, fun b hb => hLine b (.inr hb),
    Mark.skip_after hAfter, ?_⟩
  · intro o ho
    have hLevel := (List.mem_filter.mp ho).2
    rw [h.level] at hLevel
    simpa using hLevel
  · exact (Mark.line_skip hAfter fun b hb => hLine b (.inl hb)).symm
  · show (l.mark.skip (c :: w).length).index + a.length - l.mark.index ≤ keyReach
    rw [Mark.skip_index hAfter]
    omega

theorem passes (h : Stands n true (c :: w ++ (a ++ ':' :: cs)) l)
    (hAfter : l.mark.after = c :: w ++ (a ++ ':' :: cs)) (ha : ∀ b ∈ a, IsBlank b)
    (hSymbol : s ≠ .streamEnd) (hNear : isNear (c :: w ++ a) = false) :
    Passes n cs (l.content s (l.mark.skip (c :: w).length)) := by
  have hContent := h.withCandidate_of_keys
  refine ⟨(h.reads_content hAfter ha hSymbol).stands, a, Mark.skip_after hAfter, ?_⟩
  intro o ho hLevel
  have hLast : o.2.mark = l.mark := by
    rw [content, hContent] at ho
    rcases List.mem_append.mp ho with hOld | hNew
    · have hOther := (List.mem_filter.mp hOld).2
      rw [h.level, hLevel] at hOther
      simp at hOther
    · rw [List.mem_singleton.mp hNew]
  show o.2.mark.line < ((l.mark.skip (c :: w).length).skip a.length).line ∨
    keyReach < ((l.mark.skip (c :: w).length).skip a.length).index - o.2.mark.index
  have hAll : l.mark.after = (c :: w ++ a) ++ ':' :: cs := by rw [hAfter, List.append_assoc]
  rw [hLast, ← Mark.skip_append, Mark.skip_index hAll]
  simp only [isNear, Bool.and_eq_false_iff, Bool.not_eq_false', List.any_eq_true,
    decide_eq_false_iff_not] at hNear
  rcases hNear with hBreak | hFar
  · exact .inl (Mark.line_skip_lt hAll (by decide) hBreak)
  · exact .inr (by omega)

/-- A token before a colon becomes a key if it is near enough to the colon. -/
theorem yields_key (h : Stands (n + 1) true (c :: w ++ (a ++ ':' :: cs)) l)
    (hcs : EndsBlanks (c :: w ++ (a ++ ':' :: cs))) (ha : ∀ b ∈ a, IsBlank b)
    (hFetch : ∀ l : Lexer, l.fetchAt c = l.fetchContent read) (hSymbol : s ≠ .streamEnd)
    (hRead : ∀ {m : Mark}, m.Sized → m.after = c :: w ++ (a ++ ':' :: cs) →
      read m = .ok (s, m.skip (c :: w).length))
    (hNext : ∀ l, Stands (n + 1) false cs l → Yields F K l (symbols l.queue ++ ss)) :
    Yields F K l (symbols l.queue ++ (keySymbols s (c :: w) a ++ ss)) := by
  have hSome : keySymbols s (c :: w) a ++ ss ≠ [] := by
    unfold keySymbols
    split <;> simp
  refine h.yields_of_fetch hcs hSome fun {l} hStands hAfter => .inr ?_
  have hReads := hStands.reads_content hAfter ha hSymbol
  refine ⟨l.content s (l.mark.skip (c :: w).length), ?_,
    YieldsWithin.mono ?_ (Nat.succ_le_succ (Nat.succ_le_of_lt hReads.left))⟩
  · rw [fetchHere_eq hAfter, hFetch, hStands.fetchContent_eq, hRead hStands.sized hAfter]
    rfl
  unfold keySymbols
  split
  · rename_i hNear
    exact (hStands.awaits hAfter ha hSymbol hNear).yields hNext
  · rename_i hNear
    have hYields := (hStands.passes hAfter ha hSymbol (by simpa using hNear)).yields hNext
    rw [hReads.queue, List.append_assoc] at hYields
    exact hYields

end Stands

end EntityGraph.Markup.Lexer
