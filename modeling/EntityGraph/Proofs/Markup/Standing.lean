import EntityGraph.Proofs.Markup.Blanks
import EntityGraph.Proofs.Markup.Stream

/-!
# Tokens outside blocks

Where no block collection is open, what a lexer reads next is decided by the level of flow
collections and by whether a key may start, and it does not matter which tokens still wait.

* `Lexer.Stands`: a lexer that stands before certain characters;
* `Lexer.Reads`: one that has read one token more;
* `Lexer.Stands.yields`: the tokens that come are that token and those that come afterwards;
* `Lexer.Stands.yields_of_tab`: a tab before a token is refused.
-/

namespace EntityGraph.Markup.Lexer

variable {F K : Prop} {n n' : Nat} {keys keys' : Bool} {c : Char} {cs cs' : List Char}
  {l l' : Lexer} {s : Symbol} {ss : List Symbol}

/-- A lexer that stands before some characters, perhaps with blanks before these, at a level of flow
collections and in no block.  If `keys` holds, a key may start there. -/
structure Stands (n : Nat) (keys : Bool) (cs : List Char) (l : Lexer) : Prop where
  sized : l.mark.Sized
  blanks : ∃ g, (∀ c ∈ g, IsBlank c) ∧ l.mark.after = g ++ cs
  level : l.flowLevel = n
  allowed : keys = true → l.keyAllowed = true
  indent : l.indent = -1
  indents : l.indents = []
  optional : l.Optional
  isOpen : l.done = false
  goesOn : ∀ t ∈ l.queue, t.symbol ≠ .streamEnd

namespace Stands

theorem start (cs : List Char) : Stands 0 keys cs { mark := Mark.start cs } where
  sized := Mark.start_sized cs
  blanks := ⟨[], List.forall_mem_nil _, rfl⟩
  level := rfl
  allowed := fun _ => rfl
  indent := rfl
  indents := rfl
  optional := List.forall_mem_nil _
  isOpen := rfl
  goesOn := List.forall_mem_nil _

theorem fresh (h : Stands n keys cs l) : Stands n keys cs l.withFresh :=
  { h with optional := h.optional.withFresh }

theorem take (h : Stands n keys cs l) : Stands n keys cs l.take :=
  { h with goesOn := fun t ht => h.goesOn t (List.mem_of_mem_tail ht) }

/-- Blanks before the characters make no difference. -/
theorem of_blanks {g : List Char} (hg : ∀ c ∈ g, IsBlank c) (h : Stands n keys (g ++ cs) l) :
    Stands n keys cs l := by
  obtain ⟨g', hBlank, hAfter⟩ := h.blanks
  refine { h with blanks := ⟨g' ++ g, fun c hc => ?_, by rw [hAfter, List.append_assoc]⟩ }
  exact (List.mem_append.mp hc).elim (hBlank c) (hg c)

theorem kind (hss : ss ≠ []) :
    Kind fun l ss' => Stands n keys cs l ∧ ss' = symbols l.queue ++ ss where
  isOpen h := h.1.isOpen
  optional h := h.1.optional
  nonempty h := by simp [h.2, hss]
  fresh h := ⟨h.1.fresh, h.2⟩
  take {l ss' t rest} h hQueue _ := by
    obtain ⟨hStands, rfl⟩ := h
    refine ⟨hStands.goesOn t (by simp [hQueue]), symbols rest ++ ss, by simp [hQueue], ?_⟩
    exact ⟨hStands.take, by simp [Lexer.take, hQueue]⟩

end Stands

/-! ## Blanks passed over -/

/-- The token that starts where a lexer stands, or the end of the text. -/
def fetchHere (l : Lexer) : Except Failure Lexer :=
  match l.mark.peek with
  | none => l.fetchEnd
  | some c => l.fetchAt c

/-- A lexer that has passed over the blanks before some characters. -/
structure Arrives (n : Nat) (keys : Bool) (cs : List Char) (l l' : Lexer) : Prop where
  stands : Stands n keys cs l'
  after : l'.mark.after = cs
  mark : ∃ g, (∀ c ∈ g, IsBlank c) ∧ l.mark.after = g ++ cs ∧ l'.mark = l.mark.skip g.length
  queue : l'.queue = l.queue
  taken : l'.taken = l.taken
  candidates : l'.candidates = l.candidates.filter fun c => !l'.isStale c.2

theorem Stands.arrives (h : Stands n keys cs l) (hcs : EndsBlanks cs) :
    ∃ l', Arrives n keys cs l l' ∧ l.fetch = l'.fetchHere := by
  obtain ⟨g, hg, hAfter⟩ := h.blanks
  obtain ⟨allowed, hAllowed, hNext⟩ := toNextToken_eq hg hcs h.sized hAfter
  have hOptional : l.toNextToken.Optional := by
    rw [hNext]
    exact h.optional
  refine ⟨l.toNextToken.withFresh, ⟨?_, ?_, ⟨g, hg, hAfter, ?_⟩, ?_, ?_, ?_⟩, ?_⟩
  · rw [hNext]
    exact {
      sized := h.sized.skip hAfter
      blanks := ⟨[], List.forall_mem_nil _, Mark.skip_after hAfter⟩
      level := h.level
      allowed := fun hKeys => hAllowed (h.allowed hKeys)
      indent := h.indent
      indents := h.indents
      optional := (hNext ▸ hOptional).withFresh
      isOpen := h.isOpen
      goesOn := h.goesOn }
  · rw [hNext]
    exact Mark.skip_after hAfter
  · rw [hNext]
    rfl
  · rw [hNext]
    rfl
  · rw [hNext]
    rfl
  · rw [hNext]
    rfl
  · have hIndents : l.toNextToken.withFresh.indents = [] := by
      rw [hNext]
      exact h.indents
    rw [fetch, dropStale_eq hOptional]
    show (match (l.toNextToken.withFresh.unwindTo _).mark.peek with | none => _ | some c => _) = _
    rw [unwindTo, hIndents, unwind]
    rfl

theorem Arrives.left_le (h : Arrives n keys cs l l') (hStands : Stands n keys cs l) :
    l'.mark.left ≤ l.mark.left := by
  obtain ⟨g, -, hAfter, -⟩ := h.mark
  rw [h.stands.sized, h.after, hStands.sized, hAfter, List.length_append]
  omega

theorem fetchHere_eq (h : l.mark.after = c :: cs) : l.fetchHere = l.fetchAt c := by
  rw [fetchHere, Mark.peek_eq h]

/-! ## One token more -/

/-- A lexer that has read one token more and stands before what follows it. -/
structure Reads (n : Nat) (keys : Bool) (cs : List Char) (s : Symbol) (l l' : Lexer) : Prop where
  stands : Stands n keys cs l'
  queue : symbols l'.queue = symbols l.queue ++ [s]
  left : l'.mark.left < l.mark.left

namespace Stands

theorem yields_of_fetch (h : Stands n keys cs l) (hcs : EndsBlanks cs) (hss : ss ≠ [])
    (hFetch : ∀ {l}, Stands n keys cs l → l.mark.after = cs →
      Gives F K (l.mark.left + 1) (symbols l.queue ++ ss) l.fetchHere) :
    Yields F K l (symbols l.queue ++ ss) := by
  refine Lexer.yields_of_fetch (kind hss) (fun {l ss'} hKind => ?_) ⟨h, rfl⟩
  obtain ⟨hStands, rfl⟩ := hKind
  obtain ⟨l', hArrives, hEq⟩ := hStands.arrives hcs
  rw [hEq, ← hArrives.queue]
  rcases hFetch hArrives.stands hArrives.after with hFail | ⟨l'', hOk, hYields⟩
  · exact .inl hFail
  · exact .inr ⟨l'', hOk, hYields.mono (Nat.succ_le_succ (hArrives.left_le hStands))⟩

/-- The tokens that come are the next one and those that come after it. -/
theorem yields (h : Stands n keys (c :: cs) l) (hcs : EndsBlanks (c :: cs))
    (hRead : ∀ {l}, Stands n keys (c :: cs) l → l.mark.after = c :: cs →
      ∃ l', l.fetchAt c = .ok l' ∧ Reads n' keys' cs' s l l')
    (hNext : ∀ l, Stands n' keys' cs' l → Yields F K l (symbols l.queue ++ ss)) :
    Yields F K l (symbols l.queue ++ s :: ss) := by
  refine h.yields_of_fetch hcs (List.cons_ne_nil s ss) fun {l} hStands hAfter => .inr ?_
  obtain ⟨l', hOk, hReads⟩ := hRead hStands hAfter
  refine ⟨l', by rw [fetchHere_eq hAfter, hOk], ?_⟩
  have hYields := (hNext l' hReads.stands).mono (Nat.succ_le_succ (Nat.succ_le_of_lt hReads.left))
  simpa [hReads.queue] using hYields

/-- Where a token cannot be read, what is read fails. -/
theorem yields_of_error (h : Stands n keys (c :: cs) l) (hcs : EndsBlanks (c :: cs)) (hF : F)
    (hss : ss ≠ []) (hError : ∀ {l}, Stands n keys (c :: cs) l → l.mark.after = c :: cs →
      ∃ f, l.fetchAt c = .error f) : Yields F K l (symbols l.queue ++ ss) := by
  refine h.yields_of_fetch hcs hss fun {l} hStands hAfter => .inl ⟨?_, hF⟩
  rw [fetchHere_eq hAfter]
  exact hError hStands hAfter

theorem yields_of_tab (h : Stands n keys ('\t' :: cs) l) (hF : F) (hss : ss ≠ []) :
    Yields F K l (symbols l.queue ++ ss) := by
  refine h.yields_of_error (.cons (by decide)) hF hss fun {l} _ hAfter => ?_
  have hPlain : startsPlain l.inFlow l.mark = false := by
    simp [startsPlain, Mark.peek_eq hAfter, endsWord]
  simp only [fetchAt, hPlain, Char.reduceEq, decide_false, Bool.false_and, Bool.false_eq_true,
    if_false]
  exact ⟨_, rfl⟩

/-- The end of the text. -/
theorem yields_of_end (h : Stands n keys [] l) (hK : K) :
    Yields F K l (symbols l.queue ++ [.streamEnd]) := by
  refine h.yields_of_fetch .nil (List.cons_ne_nil _ _) fun {l} hStands hAfter => .inr ?_
  have hPeek : l.mark.peek = none := by rw [Mark.peek, hAfter]; rfl
  refine ⟨{ l.dropCandidate.pushHere .streamEnd with
    keyAllowed := false, candidates := [], done := true }, ?_, ?_⟩
  · simp only [fetchHere, hPeek, fetchEnd, unwindTo, hStands.indents, unwind,
      giveUpCandidate_eq hStands.optional]
    rfl
  · have hQueue : symbols l.queue ++ [.streamEnd] =
        symbols (l.dropCandidate.pushHere .streamEnd).queue := by
      simp [pushHere, push, dropCandidate]
    rw [hQueue]
    exact (yields_of_done rfl hK rfl hStands.goesOn rfl).mono (Nat.zero_le _)

end Stands

/-! ## Indicators -/

/-- The next token as a candidate for a key, where one may start. -/
def withCandidate (l : Lexer) : Lexer :=
  if l.keyAllowed then
    { l with candidates :=
        l.dropCandidate.candidates ++ [(l.flowLevel, ⟨l.nextPlace, false, l.mark⟩)] }
  else l

theorem Stands.saveCandidate_eq (h : Stands n keys cs l) :
    l.saveCandidate = .ok l.withCandidate := by
  unfold saveCandidate withCandidate
  cases hAllowed : l.keyAllowed with
  | false => rfl
  | true =>
    have hRequired : (l.dropCandidate.indent == (l.dropCandidate.mark.column : Int)) = false := by
      show (l.indent == _) = false
      rw [h.indent]
      exact beq_false_of_ne (by omega)
    simp only [giveUpCandidate_eq h.optional, Bool.not_true, Bool.false_eq_true, if_false, if_true]
    show Except.ok _ = _
    simp only [hRequired, Bool.and_false, show l.dropCandidate.keyAllowed = true from hAllowed]
    rfl

theorem Stands.withCandidate_eq (h : Stands n keys cs l) :
    ∃ candidates, (∀ c ∈ candidates, c.2.required = false) ∧
      l.withCandidate = { l with candidates } := by
  unfold withCandidate
  split
  · refine ⟨_, fun c hc => ?_, rfl⟩
    rcases List.mem_append.mp hc with hOld | hNew
    · exact h.optional.dropCandidate c hOld
    · rw [List.mem_singleton.mp hNew]
  · exact ⟨l.candidates, h.optional, rfl⟩

/-- A token has been read that ends at a mark after which the blanks may have been passed over. -/
theorem Reads.push {candidates : List (Nat × KeyCandidate)} {allowed : Bool} {rest : Mark}
    (stop : Mark) (h : Stands n keys cs l) (hOptional : ∀ c ∈ candidates, c.2.required = false)
    (hSymbol : s ≠ .streamEnd) (hAllowed : keys' = true → allowed = true) (hSized : rest.Sized)
    (hBlanks : ∃ g, (∀ c ∈ g, IsBlank c) ∧ rest.after = g ++ cs')
    (hLeft : rest.left < l.mark.left) :
    Reads n' keys' cs' s l { l with
      candidates, flowLevel := n', keyAllowed := allowed, mark := rest
      queue := l.queue ++ [⟨s, l.mark, stop⟩] } where
  stands := {
    sized := hSized
    blanks := hBlanks
    level := rfl
    allowed := hAllowed
    indent := h.indent
    indents := h.indents
    optional := hOptional
    isOpen := h.isOpen
    goesOn := by
      intro t ht
      rcases List.mem_append.mp ht with hOld | hNew
      · exact h.goesOn t hOld
      · rw [List.mem_singleton.mp hNew]
        exact hSymbol }
  queue := by simp
  left := hLeft

namespace Stands

/-- A token of one character that has no need of its neighbours. -/
theorem reads_next {candidates : List (Nat × KeyCandidate)} {allowed : Bool}
    (h : Stands n keys (c :: cs) l) (hAfter : l.mark.after = c :: cs)
    (hOptional : ∀ c ∈ candidates, c.2.required = false) (hSymbol : s ≠ .streamEnd)
    (hAllowed : keys' = true → allowed = true) :
    Reads n' keys' cs s l { l with
      candidates, flowLevel := n', keyAllowed := allowed, mark := l.mark.next
      queue := l.queue ++ [⟨s, l.mark, l.mark.next⟩] } :=
  .push l.mark.next h hOptional hSymbol hAllowed (h.sized.next hAfter)
    ⟨[], List.forall_mem_nil _, Mark.next_after hAfter⟩ (h.sized.next_lt hAfter)

theorem yields_opening (h : Stands n keys (c :: cs) l) (hcs : EndsBlanks (c :: cs))
    (hFetch : ∀ l : Lexer, l.fetchAt c = l.fetchOpening s) (hSymbol : s ≠ .streamEnd)
    (hNext : ∀ l, Stands (n + 1) true cs l → Yields F K l (symbols l.queue ++ ss)) :
    Yields F K l (symbols l.queue ++ s :: ss) := by
  refine h.yields hcs (fun {l} hStands hAfter => ?_) hNext
  obtain ⟨candidates, hOptional, hWith⟩ := hStands.withCandidate_eq
  refine ⟨_, ?_, hStands.reads_next hAfter hOptional hSymbol fun _ => rfl⟩
  rw [hFetch, fetchOpening, hStands.saveCandidate_eq, hWith, ← hStands.level]
  rfl

theorem yields_closing (h : Stands (n + 1) keys (c :: cs) l) (hcs : EndsBlanks (c :: cs))
    (hFetch : ∀ l : Lexer, l.fetchAt c = l.fetchClosing s) (hSymbol : s ≠ .streamEnd)
    (hNext : ∀ l, Stands n false cs l → Yields F K l (symbols l.queue ++ ss)) :
    Yields F K l (symbols l.queue ++ s :: ss) := by
  refine h.yields hcs (fun {l} hStands hAfter => ?_) hNext
  have hNone : false = true → false = true := id
  refine ⟨_, ?_, hStands.reads_next hAfter hStands.optional.dropCandidate hSymbol hNone⟩
  rw [hFetch, fetchClosing, giveUpCandidate_eq hStands.optional]
  show Except.ok { l.dropCandidate.pushNext s 1 with
    flowLevel := l.flowLevel - 1, keyAllowed := false } = _
  rw [hStands.level]
  rfl

theorem yields_comma (h : Stands n keys (',' :: cs) l)
    (hNext : ∀ l, Stands n true cs l → Yields F K l (symbols l.queue ++ ss)) :
    Yields F K l (symbols l.queue ++ .comma :: ss) := by
  refine h.yields (.cons (by decide)) (fun {l} hStands hAfter => ?_) hNext
  refine ⟨_, ?_, hStands.reads_next hAfter hStands.optional.dropCandidate (by simp)
    fun _ => rfl⟩
  have hFetch : l.fetchAt ',' = l.fetchComma := by simp [fetchAt]
  rw [hFetch, fetchComma, giveUpCandidate_eq hStands.optional, ← hStands.level]
  rfl

end Stands

theorem fetchAt_openSequence (l : Lexer) : l.fetchAt '[' = l.fetchOpening .openSequence := by
  simp [fetchAt]

theorem fetchAt_openMapping (l : Lexer) : l.fetchAt '\x7b' = l.fetchOpening .openMapping := by
  simp [fetchAt]

theorem fetchAt_closeSequence (l : Lexer) : l.fetchAt ']' = l.fetchClosing .closeSequence := by
  simp [fetchAt]

theorem fetchAt_closeMapping (l : Lexer) : l.fetchAt '\x7d' = l.fetchClosing .closeMapping := by
  simp [fetchAt]

end EntityGraph.Markup.Lexer
