import EntityGraph.Markup.Token.Lexer
import EntityGraph.Proofs.Markup.Mark

/-!
# Streams of tokens

Tokens are taken from a queue as soon as they are settled, while others are read.  Which tokens come
out does not depend on when they are taken: if every state of a kind reads on to states from which
certain tokens come, then these come from the states of the kind.

* `Follows`: a stream of tokens with given symbols, which may fail on the way;
* `Lexer.Yields`: the tokens that come from a lexer;
* `Lexer.yields_of_fetch`: they are those that come after the next token has been read;
* `Lexer.yields_of_done`: at the end of a text they are those of the queue.
-/

namespace EntityGraph.Markup

/-- A stream of tokens with given symbols.  It may fail on the way if `F` holds, and comes to its
end only if `K` holds. -/
inductive Follows (F K : Prop) : List Symbol → TokenStream → Prop where
  | finish {t : Token} (hSymbol : t.symbol = .streamEnd) (h : K) :
      Follows F K [.streamEnd] (.finish t)
  | cons {t : Token} {s : TokenStream} {ss : List Symbol} (hSymbol : t.symbol ≠ .streamEnd)
      (h : Follows F K ss s) : Follows F K (t.symbol :: ss) (.cons t s)
  | fail {f : Failure} {ss : List Symbol} (h : F) : Follows F K ss (.fail f)

theorem Follows.mono {F F' K : Prop} {ss : List Symbol} {s : TokenStream} (h : Follows F K ss s)
    (hF : F → F') : Follows F' K ss s := by
  induction h with
  | finish hSymbol hK => exact .finish hSymbol hK
  | cons hSymbol _ ih => exact .cons hSymbol ih
  | fail hFail => exact .fail (hF hFail)

def symbols (ts : List Token) : List Symbol := ts.map (·.symbol)

@[simp] theorem symbols_nil : symbols [] = [] := rfl

@[simp] theorem symbols_cons (t : Token) (ts : List Token) :
    symbols (t :: ts) = t.symbol :: symbols ts := rfl

@[simp] theorem symbols_append (ts ts' : List Token) :
    symbols (ts ++ ts') = symbols ts ++ symbols ts' := List.map_append

namespace Lexer

variable {F K : Prop} {l : Lexer}

/-- The first token of the queue taken. -/
def take (l : Lexer) : Lexer := { l with queue := l.queue.tail, taken := l.taken + 1 }

/-- The tokens that come from a lexer whose first token is settled. -/
def emit (fuel : Nat) : Except Failure Lexer → TokenStream
  | .error failure => .fail failure
  | .ok l =>
    match l.queue with
    | [] => .finish ⟨.streamEnd, l.mark, l.mark⟩
    | token :: _ =>
      if token.symbol matches .streamEnd then .finish token
      else .cons token (streamFrom fuel l.take)

theorem emit_cons {fuel : Nat} {t : Token} {rest : List Token} (hQueue : l.queue = t :: rest)
    (hEnd : t.symbol ≠ .streamEnd) : emit fuel (.ok l) = .cons t (streamFrom fuel l.take) := by
  obtain ⟨symbol, start, stop⟩ := t
  simp only [emit, hQueue]
  cases symbol with
  | streamEnd => exact absurd rfl hEnd
  | _ => rfl

theorem emit_end {fuel : Nat} {t : Token} {rest : List Token} (hQueue : l.queue = t :: rest)
    (hEnd : t.symbol = .streamEnd) : emit fuel (.ok l) = .finish t := by
  simp only [emit, hQueue, hEnd]
  rfl

/-- The tokens that come from a lexer whose first token is looked for in a given number of steps. -/
def streamWith (steps : Nat) : (fuel : Nat) → Lexer → TokenStream
  | 0, l => .finish ⟨.streamEnd, l.mark, l.mark⟩
  | fuel + 1, l => emit fuel (fill steps l)

theorem streamFrom_eq (fuel : Nat) (l : Lexer) :
    streamFrom fuel l = streamWith (l.mark.left + 2) fuel l := by
  cases fuel with
  | zero => rfl
  | succ fuel =>
    rw [streamFrom, streamWith]
    cases fill (l.mark.left + 2) l with
    | error failure => rfl
    | ok l' =>
      obtain ⟨mark, level, indent, indents, allowed, candidates, queue, taken, done⟩ := l'
      cases queue <;> rfl

/-- The tokens that come from a lexer if each is looked for in a number of steps at least. -/
def YieldsWithin (F K : Prop) (least : Nat) (l : Lexer) (ss : List Symbol) : Prop :=
  ∀ steps fuel, least ≤ steps → ss.length ≤ fuel → Follows F K ss (l.streamWith steps fuel)

/-- The tokens that come from a lexer. -/
def Yields (F K : Prop) (l : Lexer) (ss : List Symbol) : Prop :=
  YieldsWithin F K (l.mark.left + 2) l ss

theorem YieldsWithin.mono {least more : Nat} {ss : List Symbol}
    (h : YieldsWithin F K least l ss) (hMore : least ≤ more) : YieldsWithin F K more l ss :=
  fun steps fuel hSteps => h steps fuel (Nat.le_trans hMore hSteps)

/-! ## Candidates -/

/-- No candidate for a key is required. -/
def Optional (l : Lexer) : Prop := ∀ c ∈ l.candidates, c.2.required = false

/-- A lexer without the candidates that are stale. -/
def withFresh (l : Lexer) : Lexer :=
  { l with candidates := l.candidates.filter fun c => !l.isStale c.2 }

theorem freshCandidates_eq {cs : List (Nat × KeyCandidate)} (h : ∀ c ∈ cs, c.2.required = false) :
    l.freshCandidates cs = .ok (cs.filter fun c => !l.isStale c.2) := by
  induction cs with
  | nil => rfl
  | cons c cs ih =>
    obtain ⟨level, c⟩ := c
    have hFirst : c.required = false := h _ List.mem_cons_self
    have hRest := ih fun c' hc' => h c' (.tail _ hc')
    rw [freshCandidates]
    cases hStale : l.isStale c with
    | true => simp [hFirst, hRest, hStale]
    | false => simp [hRest, hStale, Except.map]

theorem dropStale_eq (h : l.Optional) : l.dropStale = .ok l.withFresh := by
  rw [dropStale, freshCandidates_eq h]
  rfl

theorem Optional.withFresh (h : l.Optional) : l.withFresh.Optional :=
  fun c hc => h c (List.mem_filter.mp hc).1

theorem Optional.dropCandidate (h : l.Optional) : l.dropCandidate.Optional :=
  fun c hc => h c (List.mem_filter.mp hc).1

theorem giveUpCandidate_eq (h : l.Optional) : l.giveUpCandidate = .ok l.dropCandidate := by
  unfold giveUpCandidate
  cases hCandidate : l.candidate? with
  | none =>
    have hNone : ∀ c ∈ l.candidates, (c.1 != l.flowLevel) = true := by
      simpa [candidate?] using hCandidate
    rw [dropCandidate, List.filter_eq_self.mpr hNone]
  | some c =>
    obtain ⟨pair, hFind, rfl⟩ := Option.map_eq_some_iff.mp hCandidate
    have hOptional := h pair (List.mem_of_find?_eq_some hFind)
    simp only [hOptional, Bool.false_eq_true, if_false]

/-! ## From one token to the next -/

/-- A step that fails where it may, or leads to a lexer from which certain tokens come. -/
def Gives (F K : Prop) (least : Nat) (ss : List Symbol) (x : Except Failure Lexer) : Prop :=
  (∃ f, x = .error f) ∧ F ∨ ∃ l, x = .ok l ∧ YieldsWithin F K least l ss

theorem Gives.follows {least : Nat} {ss : List Symbol} {x : Except Failure Lexer}
    (h : Gives F K least ss x) {steps fuel : Nat} (hSteps : least ≤ steps)
    (hFuel : ss.length ≤ fuel + 1) : Follows F K ss (emit fuel (x >>= fill steps)) := by
  rcases h with ⟨⟨f, rfl⟩, hF⟩ | ⟨l, rfl, hNext⟩
  · exact .fail hF
  · exact hNext steps (fuel + 1) hSteps hFuel

/-- A kind of states with the tokens that come from them.  It contains what remains of a state when
stale candidates are dropped and when a settled token is taken. -/
structure Kind (P : Lexer → List Symbol → Prop) : Prop where
  isOpen : ∀ {l ss}, P l ss → l.done = false
  optional : ∀ {l ss}, P l ss → l.Optional
  nonempty : ∀ {l ss}, P l ss → ss ≠ []
  fresh : ∀ {l ss}, P l ss → P l.withFresh ss
  take : ∀ {l ss t rest}, P l ss → l.queue = t :: rest → l.isWaiting = false →
    t.symbol ≠ .streamEnd ∧ ∃ ss', ss = t.symbol :: ss' ∧ P l.take ss'

/-- The tokens that come from the states of a kind are those that come after the next fetch. -/
theorem yields_of_fetch {P : Lexer → List Symbol → Prop} (hKind : Kind P)
    (hFetch : ∀ {l ss}, P l ss → Gives F K (l.mark.left + 1) ss l.fetch) {l : Lexer}
    {ss : List Symbol} (h : P l ss) : Yields F K l ss := by
  -- by induction on the tokens in the queue: each is taken, or more are fetched
  generalize hLength : l.queue.length = n
  induction n generalizing l ss with
  | zero =>
    intro steps fuel hSteps hFuel
    obtain ⟨fuel, rfl⟩ := Nat.exists_eq_add_one.mpr
      (Nat.lt_of_lt_of_le (List.length_pos_iff.mpr (hKind.nonempty h)) hFuel)
    obtain ⟨steps, rfl⟩ := Nat.exists_eq_add_one.mpr (by omega : 0 < steps)
    have hEmpty : l.queue.isEmpty = true := by simpa using hLength
    have hFill : fill (steps + 1) l = l.fetch >>= fill steps := by
      simp only [fill, hKind.isOpen h, hEmpty, Bool.false_eq_true, if_false, if_true]
    rw [streamWith, hFill]
    exact (hFetch h).follows (by omega) hFuel
  | succ n ih =>
    intro steps fuel hSteps hFuel
    obtain ⟨fuel, rfl⟩ := Nat.exists_eq_add_one.mpr
      (Nat.lt_of_lt_of_le (List.length_pos_iff.mpr (hKind.nonempty h)) hFuel)
    obtain ⟨steps, rfl⟩ := Nat.exists_eq_add_one.mpr (by omega : 0 < steps)
    obtain ⟨t, rest, hQueue⟩ := List.exists_cons_of_length_eq_add_one hLength
    have hSettled := hKind.fresh h
    have hFill : fill (steps + 1) l =
        if l.withFresh.isWaiting then l.withFresh.fetch >>= fill steps
        else .ok l.withFresh := by
      have hFilled : l.queue.isEmpty = false := by simp [hQueue]
      simp only [fill, hKind.isOpen h, hFilled, dropStale_eq (hKind.optional h), Bool.false_eq_true,
        if_false]
      rfl
    rw [streamWith, hFill]
    cases hWaiting : l.withFresh.isWaiting with
    | true => exact (hFetch hSettled).follows (by simpa [withFresh] using by omega) hFuel
    | false =>
      obtain ⟨hEnd, ss', rfl, hRest⟩ := hKind.take hSettled hQueue hWaiting
      have hTaken : l.withFresh.take.queue.length = n := by
        simp [take, withFresh, hQueue]
        simpa [hQueue] using hLength
      have hTail := ih hRest hTaken _ fuel (Nat.le_refl _) (by simpa using hFuel)
      rw [← streamFrom_eq] at hTail
      have hQueue : l.withFresh.queue = t :: rest := hQueue
      rw [if_neg Bool.false_ne_true, emit_cons hQueue hEnd]
      exact .cons hEnd hTail

/-- At the end of a text the tokens are those of the queue. -/
theorem yields_of_done (hDone : l.done = true) (hK : K) {ts : List Token} {t : Token}
    (hQueue : l.queue = ts ++ [t]) (hTokens : ∀ t' ∈ ts, t'.symbol ≠ .streamEnd)
    (hLast : t.symbol = .streamEnd) : YieldsWithin F K 0 l (symbols l.queue) := by
  intro steps fuel _ hFuel
  induction ts generalizing l steps fuel with
  | nil =>
    have hFill : fill steps l = .ok l := by cases steps <;> simp [fill, hDone]
    rw [hQueue] at hFuel ⊢
    obtain ⟨fuel, rfl⟩ := Nat.exists_eq_add_one.mpr
      (Nat.lt_of_lt_of_le (by simp) hFuel : 0 < fuel)
    rw [streamWith, hFill, emit_end hQueue hLast]
    simpa [hLast] using Follows.finish hLast hK
  | cons t' ts ih =>
    have hFill : fill steps l = .ok l := by cases steps <;> simp [fill, hDone]
    rw [hQueue] at hFuel ⊢
    obtain ⟨fuel, rfl⟩ := Nat.exists_eq_add_one.mpr
      (Nat.lt_of_lt_of_le (by simp) hFuel : 0 < fuel)
    rw [streamWith, hFill, emit_cons hQueue (hTokens t' List.mem_cons_self), streamFrom_eq]
    have hRest : l.take.queue = ts ++ [t] := by simp [take, hQueue]
    have hTail := @ih l.take hDone hRest (fun t'' ht'' => hTokens t'' (.tail _ ht''))
      (l.take.mark.left + 2) fuel
    rw [hRest] at hTail
    show Follows F K (t'.symbol :: symbols (ts ++ [t])) _
    exact .cons (hTokens t' List.mem_cons_self) (hTail (Nat.zero_le _) (by simpa using hFuel))

end Lexer

end EntityGraph.Markup
