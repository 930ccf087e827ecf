import EntityGraph.Proofs.Json.Numbers
import EntityGraph.Proofs.Json.Strings
import EntityGraph.Proofs.Markup.Key
import EntityGraph.Proofs.Markup.Plain

/-!
# Tokens of documents

The tokens of a document follow its tree.  Nothing else is read, unless a tab stands between two
tokens, a document separator after a line break in a string, or a name too far from its colon.

* `spacing`, `nearness`, `Document.isLaid`: where nothing of this kind is found;
* `Tree.symbols`: the tokens of a tree;
* `Document.stream_follows`: the tokens of the text of a document.
-/

namespace EntityGraph.Json

open Markup Markup.Lexer

/-! ## Layout -/

/-- No tab stands among some blanks. -/
def Gap.isPlain (g : Gap) : Bool := !g.contains .tab

/-- A name whose colon makes it a key. -/
def Key.isFresh (k : Key) : Bool :=
  Gap.isPlain k.after && isNear (Pieces.chars k.pieces ++ Gap.chars k.after)

/-- The conditions under which a text can be divided into tokens. -/
def spacing : Rules where
  gap := Gap.isPlain
  string := Pieces.isCalm

/-- The condition under which names are keys. -/
def nearness : Rules where
  key := Key.isFresh

def Document.isLaid (d : Document) : Bool := d.obeys spacing && d.obeys nearness

/-! ## Symbols -/

def wordSymbol (w : List Char) : Symbol := .scalar (pointsOf w) true

def stringSymbol (ps : Pieces) : Symbol := .scalar (Pieces.points ps) false

/-- A name that its colon does not make a key is a scalar before a colon. -/
def Key.symbols (k : Key) : List Symbol :=
  (if k.isFresh then [.key] else []) ++ [stringSymbol k.pieces, .value]

mutual

def Tree.symbols : Tree → List Symbol
  | .null => [wordSymbol Tree.null.chars]
  | .bool b => [wordSymbol (Tree.bool b).chars]
  | .number n => [wordSymbol n.chars]
  | .string ps => [stringSymbol ps]
  | .emptyArray _ => [.openSequence, .closeSequence]
  | .array items => .openSequence :: (items.symbols ++ [.closeSequence])
  | .emptyObject _ => [.openMapping, .closeMapping]
  | .object members => .openMapping :: (members.symbols ++ [.closeMapping])

def Items.symbols : Items → List Symbol
  | .last _ item _ => item.symbols
  | .cons _ item _ rest => item.symbols ++ .comma :: rest.symbols

def Members.symbols : Members → List Symbol
  | .last key _ item _ => key.symbols ++ item.symbols
  | .cons key _ item _ rest => key.symbols ++ (item.symbols ++ .comma :: rest.symbols)

end

/-! ## Gaps -/

variable {F K : Prop} {n : Nat} {keys : Bool} {cs : List Char} {l : Lexer} {ss : List Symbol}

theorem Gap.blanks {g : Gap} (h : g.isPlain = true) : ∀ c ∈ g.chars, IsBlank c := by
  intro c hc
  obtain ⟨b, hb, rfl⟩ := List.mem_map.mp hc
  cases b with
  | space => exact .inl rfl
  | lineFeed => exact .inr (.inl rfl)
  | carriageReturn => exact .inr (.inr rfl)
  | tab => simp [Gap.isPlain, hb] at h

theorem Gap.exists_tab {g : Gap} (h : g.isPlain = false) :
    ∃ a b : Gap, g.chars = a.chars ++ '\t' :: b.chars ∧ a.isPlain = true := by
  have hTab : Blank.tab ∈ g := by simpa [Gap.isPlain] using h
  obtain ⟨a, b, rfl, ha⟩ := List.eq_append_cons_of_mem hTab
  exact ⟨a, b, by simp [Gap.chars, Blank.char], by simp [Gap.isPlain, ha]⟩

/-- Blanks are passed over, unless there is a tab among them. -/
theorem Gap.yields {g : Gap} (h : Stands n keys (g.chars ++ cs) l) (hss : ss ≠ [])
    (hTab : g.isPlain = false → F)
    (hNext : g.isPlain = true → Stands n keys cs l → Yields F K l (Markup.symbols l.queue ++ ss)) :
    Yields F K l (Markup.symbols l.queue ++ ss) := by
  cases hPlain : g.isPlain with
  | true => exact hNext hPlain (h.of_blanks (Gap.blanks hPlain))
  | false =>
    obtain ⟨a, b, hChars, ha⟩ := Gap.exists_tab hPlain
    rw [hChars, List.append_assoc] at h
    exact (h.of_blanks (Gap.blanks ha)).yields_of_tab (hTab hPlain) hss

/-! ## Scalars -/

theorem EndsPlain.tab {inFlow : Bool} (cs : List Char) : EndsPlain inFlow ('\t' :: cs) where
  blanks := .cons (by decide)
  word := by simp [plainWord, endsPlainWord, endsWord]
  start c hc := by
    obtain rfl : '\t' = c := Option.some.inj hc
    decide

/-- A word with blanks after it. -/
theorem word_yields {c : Char} {w : List Char} {after : Gap}
    (h : Stands n keys (c :: w ++ (after.chars ++ cs)) l) (hcs : EndsPlain (n > 0) cs)
    (hc : isSpaceChar c = false ∧ Markup.isBreak c = false ∧ c ≠ '#' ∧ c ≠ '\uFEFF')
    (hw : ∀ d ∈ c :: w, IsWordChar d) (hss : ss ≠ [])
    (hFetch : ∀ {l : Lexer} {cs : List Char}, l.mark.after = c :: w ++ cs →
      l.fetchAt c = l.fetchPlain)
    (hTab : after.isPlain = false → F)
    (hNext : after.isPlain = true → ∀ l, Stands n false cs l →
      Yields F K l (Markup.symbols l.queue ++ ss)) :
    Yields F K l (Markup.symbols l.queue ++ wordSymbol (c :: w) :: ss) := by
  cases hPlain : after.isPlain with
  | true =>
    exact h.yields_plain (.cons hc) hw (Gap.blanks hPlain) hcs hFetch (hNext hPlain)
  | false =>
    obtain ⟨a, b, hChars, ha⟩ := Gap.exists_tab hPlain
    rw [hChars, List.append_assoc] at h
    exact h.yields_plain (.cons hc) hw (Gap.blanks ha) (EndsPlain.tab _) hFetch
      fun l hStands => hStands.yields_of_tab (hTab hPlain) hss

theorem fetchAt_quote (l : Lexer) : l.fetchAt '"' = l.fetchContent (quotedSymbol true) := by
  simp [fetchAt]

theorem quotedSymbol_gives {m : Mark} {ps : Pieces} (hSized : m.Sized)
    (h : m.after = ps.chars ++ cs) :
    GivesIf ps.isCalm (stringSymbol ps, m.skip ps.chars.length) (quotedSymbol true m) :=
  (readQuoted_gives hSized h).map fun x => (Symbol.scalar x.1 false, x.2)

/-- A string in which a document separator comes after a line break is refused. -/
theorem string_fails {ps : Pieces} (h : Stands n keys (ps.chars ++ cs) l)
    (hCalm : ps.isCalm = false) (hF : F) (hss : ss ≠ []) :
    Yields F K l (Markup.symbols l.queue ++ ss) := by
  refine h.yields_of_error (.cons (by decide)) hF hss fun {l} hStands hAfter => ?_
  obtain ⟨f, hError⟩ := (quotedSymbol_gives hStands.sized hAfter).2 hCalm
  exact ⟨f, by rw [fetchAt_quote, hStands.fetchContent_eq, hError]; rfl⟩

theorem string_yields {ps : Pieces} (h : Stands n keys (ps.chars ++ cs) l)
    (hFails : ps.isCalm = false → F)
    (hNext : ps.isCalm = true → ∀ l, Stands n false cs l →
      Yields F K l (Markup.symbols l.queue ++ ss)) :
    Yields F K l (Markup.symbols l.queue ++ stringSymbol ps :: ss) := by
  cases hCalm : ps.isCalm with
  | true =>
    exact h.yields_content (.cons (by decide)) fetchAt_quote (by simp [stringSymbol])
      (fun hSized hAfter => (quotedSymbol_gives hSized hAfter).1 hCalm) (hNext hCalm)
  | false => exact string_fails h hCalm (hFails hCalm) (List.cons_ne_nil _ _)

/-! ## Keys -/

theorem Key.symbols_ne (k : Key) (ss : List Symbol) : k.symbols ++ ss ≠ [] := by
  unfold Key.symbols
  split <;> simp

theorem Key.symbols_eq {k : Key} (h : k.after.isPlain = true) :
    k.symbols = keySymbols (stringSymbol k.pieces) k.pieces.chars k.after.chars := by
  rw [Key.symbols, Key.isFresh, h, Bool.true_and, keySymbols]
  split <;> rfl

theorem Key.yields {k : Key} (h : Stands (n + 1) true (k.chars ++ cs) l)
    (hFails : k.obeys spacing = false → F)
    (hNext : k.obeys spacing = true → ∀ l, Stands (n + 1) false cs l →
      Yields F K l (Markup.symbols l.queue ++ ss)) :
    Yields F K l (Markup.symbols l.queue ++ (k.symbols ++ ss)) := by
  simp only [Key.chars, List.append_assoc] at h
  refine Gap.yields h (k.symbols_ne ss) (fun hTab => hFails ?_) fun hBefore h => ?_
  · simp [Key.obeys, spacing, hTab]
  cases hCalm : k.pieces.isCalm with
  | false =>
    refine string_fails h hCalm (hFails ?_) (k.symbols_ne ss)
    simp [Key.obeys, spacing, hCalm]
  | true =>
    cases hAfter : k.after.isPlain with
    | true =>
      rw [Key.symbols_eq hAfter]
      refine h.yields_key (.cons (by decide)) (Gap.blanks hAfter) fetchAt_quote
        (by simp [stringSymbol]) (fun hSized hText => (quotedSymbol_gives hSized hText).1 hCalm)
        (hNext ?_)
      simp [Key.obeys, spacing, hBefore, hCalm, hAfter]
    | false =>
      have hF : F := hFails (by simp [Key.obeys, spacing, hAfter])
      have hSymbols : k.symbols ++ ss = stringSymbol k.pieces :: .value :: ss := by
        simp [Key.symbols, Key.isFresh, hAfter]
      rw [hSymbols]
      refine string_yields h (fun _ => hF) fun _ l hStands => ?_
      exact Gap.yields hStands (List.cons_ne_nil _ _) (fun _ => hF) fun hPlain => by
        rw [hAfter] at hPlain
        cases hPlain

/-! ## Trees -/

/-- The characters that may follow an item. -/
theorem EndsPlain.mark {c : Char} (hc : c = ',' ∨ c = ']' ∨ c = '\x7d') (cs : List Char) :
    EndsPlain (n + 1 > 0) (c :: cs) where
  blanks := .cons (by rcases hc with rfl | rfl | rfl <;> decide)
  word := by
    have hEnds : endsPlainWord true c cs.head? = true := by
      rcases hc with rfl | rfl | rfl <;> simp [endsPlainWord, isFlowChar]
    simp [plainWord, hEnds]
  start d hd := by
    obtain rfl : c = d := Option.some.inj hd
    rcases hc with rfl | rfl | rfl <;> decide

theorem Number.isWordChar {n : Number} : ∀ c ∈ n.chars, IsWordChar c := by
  have hAll : ∀ c ∈ numberChars, IsWordChar c := forall_of_all (by decide)
  exact fun c hc => hAll c (Number.mem_numberChars hc)

/-- A number starts with a digit, or with a hyphen before one. -/
theorem Number.starts (n : Number) : ∃ c w, n.chars = c :: w ∧
    (isSpaceChar c = false ∧ Markup.isBreak c = false ∧ c ≠ '#' ∧ c ≠ '\uFEFF') ∧
    ∀ {l : Lexer} {cs : List Char}, l.mark.after = c :: w ++ cs → l.fetchAt c = l.fetchPlain := by
  have hStarts : ∀ d : Digit, StartsWord d.char ∧ endsWord (some d.char) = false ∧ d.char ≠ '-' ∧
      isSpaceChar d.char = false ∧ Markup.isBreak d.char = false ∧ d.char ≠ '#' ∧
      d.char ≠ '\uFEFF' := by decide
  obtain ⟨d, rest, hBody⟩ := n.exists_first
  obtain ⟨hWord, hEnds, hHyphen, hBlank⟩ := hStarts d
  rw [Number.chars_eq, Number.signChars, hBody]
  cases n.negative with
  | true =>
    exact ⟨'-', d.char :: rest, rfl, by decide, fun hAfter => fetchAt_hyphen hAfter hEnds hHyphen⟩
  | false =>
    exact ⟨d.char, rest, rfl, hBlank, fun hAfter => fetchAt_word (Mark.peek_eq hAfter) hWord⟩

/-- A collection between its brackets, with blanks after it. -/
theorem collection_yields {c d : Char} {s s' : Symbol} {inner : List Char} (middle : List Symbol)
    {good : Bool} {after : Gap} (h : Stands n keys (c :: (inner ++ d :: (after.chars ++ cs))) l)
    (hc : isSpaceChar c = false ∧ Markup.isBreak c = false ∧ c ≠ '#' ∧ c ≠ '\uFEFF')
    (hd : isSpaceChar d = false ∧ Markup.isBreak d = false ∧ d ≠ '#' ∧ d ≠ '\uFEFF')
    (hOpen : ∀ l : Lexer, l.fetchAt c = l.fetchOpening s) (hs : s ≠ .streamEnd)
    (hClose : ∀ l : Lexer, l.fetchAt d = l.fetchClosing s') (hs' : s' ≠ .streamEnd)
    (hss : ss ≠ []) (hFails : (good && after.isPlain) = false → F)
    (hNext : good = true → after.isPlain = true → ∀ l, Stands n false cs l →
      Yields F K l (Markup.symbols l.queue ++ ss))
    (hInner : ∀ {l : Lexer}, Stands (n + 1) true (inner ++ d :: (after.chars ++ cs)) l →
      (good = false → F) →
      (good = true → ∀ keys l, Stands (n + 1) keys (d :: (after.chars ++ cs)) l →
        Yields F K l (Markup.symbols l.queue ++ s' :: ss)) →
      Yields F K l (Markup.symbols l.queue ++ (middle ++ s' :: ss))) :
    Yields F K l (Markup.symbols l.queue ++ s :: (middle ++ s' :: ss)) := by
  refine h.yields_opening (.cons hc) hOpen hs fun l h => ?_
  refine hInner h (fun hBad => hFails (by rw [hBad]; rfl)) fun hGood keys l h => ?_
  refine h.yields_closing (.cons hd) hClose hs' fun l hStands => ?_
  exact Gap.yields hStands hss (fun hTab => hFails (by rw [hTab, Bool.and_false]))
    fun hPlain hStands => hNext hGood hPlain l hStands

/-- A value between blanks, before a comma or the end of a collection. -/
theorem part_yields {before after : Gap} {item : Tree} {c : Char}
    (h : Stands (n + 1) keys (before.chars ++ (item.chars ++ (after.chars ++ c :: cs))) l)
    (hc : c = ',' ∨ c = ']' ∨ c = '\x7d') (hss : ss ≠ [])
    (hFails : (before.isPlain && item.obeys spacing && after.isPlain) = false → F)
    (hNext : (before.isPlain && item.obeys spacing && after.isPlain) = true →
      ∀ l, Stands (n + 1) false (c :: cs) l → Yields F K l (Markup.symbols l.queue ++ ss))
    (hItem : Stands (n + 1) keys (item.chars ++ (after.chars ++ c :: cs)) l →
      EndsPlain (n + 1 > 0) (c :: cs) → ((item.obeys spacing && after.isPlain) = false → F) →
      (item.obeys spacing = true → after.isPlain = true → ∀ l, Stands (n + 1) false (c :: cs) l →
        Yields F K l (Markup.symbols l.queue ++ ss)) →
      Yields F K l (Markup.symbols l.queue ++ (item.symbols ++ ss))) :
    Yields F K l (Markup.symbols l.queue ++ (item.symbols ++ ss)) := by
  refine Gap.yields h (by simp [hss]) (fun hTab => hFails (by rw [hTab]; rfl)) fun hBefore h => ?_
  rw [hBefore, Bool.true_and] at hFails hNext
  exact hItem h (EndsPlain.mark hc cs) hFails fun hGood hAfter => hNext (by rw [hGood, hAfter]; rfl)

mutual

theorem Tree.yields {n : Nat} {keys : Bool} {cs : List Char} {l : Lexer} {ss : List Symbol}
    (t : Tree) {after : Gap} (h : Stands n keys (t.chars ++ (after.chars ++ cs)) l)
    (hcs : EndsPlain (n > 0) cs) (hss : ss ≠ [])
    (hFails : (t.obeys spacing && after.isPlain) = false → F)
    (hNext : t.obeys spacing = true → after.isPlain = true → ∀ l, Stands n false cs l →
      Yields F K l (Markup.symbols l.queue ++ ss)) :
    Yields F K l (Markup.symbols l.queue ++ (t.symbols ++ ss)) := by
  have hTab : after.isPlain = false → F := fun hTab => hFails (by rw [hTab, Bool.and_false])
  cases t with
  | null =>
    exact word_yields h hcs (by decide) (forall_of_all (by decide)) hss
      (fun hAfter => fetchAt_word (Mark.peek_eq hAfter) (by decide)) hTab (hNext rfl)
  | bool b =>
    cases b with
    | true =>
      exact word_yields h hcs (by decide) (forall_of_all (by decide)) hss
        (fun hAfter => fetchAt_word (Mark.peek_eq hAfter) (by decide)) hTab (hNext rfl)
    | false =>
      exact word_yields h hcs (by decide) (forall_of_all (by decide)) hss
        (fun hAfter => fetchAt_word (Mark.peek_eq hAfter) (by decide)) hTab (hNext rfl)
  | number number =>
    obtain ⟨c, w, hChars, hc, hFetch⟩ := number.starts
    have hw := number.isWordChar
    simp only [Tree.chars, Tree.symbols, hChars] at h hw ⊢
    exact word_yields h hcs hc hw hss hFetch hTab (hNext rfl)
  | string ps =>
    refine string_yields h (fun hCalm => hFails (by simp [Tree.obeys, spacing, hCalm]))
      fun hCalm l hStands => ?_
    exact Gap.yields hStands hss hTab fun hPlain hStands => hNext hCalm hPlain l hStands
  | emptyArray gap =>
    have h : Stands n keys ('[' :: (gap.chars ++ ']' :: (after.chars ++ cs))) l := by
      simpa [Tree.chars] using h
    exact collection_yields [] h (by decide) (by decide) fetchAt_openSequence (by simp)
      fetchAt_closeSequence (by simp) hss hFails hNext fun h hBad hGood =>
        Gap.yields h (List.cons_ne_nil _ _) hBad fun hGap h => hGood hGap true _ h
  | array items =>
    have h : Stands n keys ('[' :: (items.chars ++ ']' :: (after.chars ++ cs))) l := by
      simpa [Tree.chars] using h
    rw [Tree.symbols, List.cons_append, List.append_assoc]
    exact collection_yields items.symbols h (by decide) (by decide) fetchAt_openSequence (by simp)
      fetchAt_closeSequence (by simp) hss hFails hNext fun h hBad hGood =>
        Items.yields items h (List.cons_ne_nil _ _) hBad fun hItems => hGood hItems false
  | emptyObject gap =>
    have h : Stands n keys ('\x7b' :: (gap.chars ++ '\x7d' :: (after.chars ++ cs))) l := by
      simpa [Tree.chars] using h
    exact collection_yields [] h (by decide) (by decide) fetchAt_openMapping (by simp)
      fetchAt_closeMapping (by simp) hss hFails hNext fun h hBad hGood =>
        Gap.yields h (List.cons_ne_nil _ _) hBad fun hGap h => hGood hGap true _ h
  | object members =>
    have h : Stands n keys ('\x7b' :: (members.chars ++ '\x7d' :: (after.chars ++ cs))) l := by
      simpa [Tree.chars] using h
    rw [Tree.symbols, List.cons_append, List.append_assoc]
    exact collection_yields members.symbols h (by decide) (by decide) fetchAt_openMapping (by simp)
      fetchAt_closeMapping (by simp) hss hFails hNext fun h hBad hGood =>
        Members.yields members h (List.cons_ne_nil _ _) hBad fun hMembers => hGood hMembers false

theorem Items.yields {n : Nat} {keys : Bool} {cs : List Char} {l : Lexer} {ss : List Symbol}
    (items : Items) (h : Stands (n + 1) keys (items.chars ++ ']' :: cs) l)
    (hss : ss ≠ []) (hFails : items.obey spacing = false → F)
    (hNext : items.obey spacing = true → ∀ l, Stands (n + 1) false (']' :: cs) l →
      Yields F K l (Markup.symbols l.queue ++ ss)) :
    Yields F K l (Markup.symbols l.queue ++ (items.symbols ++ ss)) := by
  cases items with
  | last before item after =>
    have h : Stands (n + 1) keys
        (before.chars ++ (item.chars ++ (after.chars ++ ']' :: cs))) l := by
      simpa [Items.chars] using h
    exact part_yields h (by simp) hss hFails hNext fun h hEnds =>
      Tree.yields item h hEnds hss
  | cons before item after rest =>
    have h : Stands (n + 1) keys
        (before.chars ++ (item.chars ++ (after.chars ++ ',' :: (rest.chars ++ ']' :: cs)))) l := by
      simpa [Items.chars] using h
    simp only [Items.symbols, List.append_assoc]
    have hObey : (Items.cons before item after rest).obey spacing =
        (before.isPlain && item.obeys spacing && after.isPlain && rest.obey spacing) := rfl
    rw [hObey] at hFails hNext
    refine part_yields h (by simp) (by simp) (fun hBad => hFails ?_) (fun hGood l h => ?_)
      fun h hEnds => Tree.yields item h hEnds (by simp)
    · rw [hBad, Bool.false_and]
    refine h.yields_comma fun l h => ?_
    refine Items.yields rest h hss (fun hBad => hFails ?_) fun hRest => hNext ?_
    · rw [hBad, Bool.and_false]
    · rw [hGood, hRest]
      rfl

theorem Members.yields {n : Nat} {cs : List Char} {l : Lexer} {ss : List Symbol}
    (members : Members)
    (h : Stands (n + 1) true (members.chars ++ '\x7d' :: cs) l) (hss : ss ≠ [])
    (hFails : members.obey spacing = false → F)
    (hNext : members.obey spacing = true → ∀ l, Stands (n + 1) false ('\x7d' :: cs) l →
      Yields F K l (Markup.symbols l.queue ++ ss)) :
    Yields F K l (Markup.symbols l.queue ++ (members.symbols ++ ss)) := by
  cases members with
  | last key before item after =>
    have h : Stands (n + 1) true
        (key.chars ++ (before.chars ++ (item.chars ++ (after.chars ++ '\x7d' :: cs)))) l := by
      simpa [Members.chars] using h
    simp only [Members.symbols, List.append_assoc]
    refine Key.yields h (fun hBad => hFails (by simp [Members.obey, hBad])) fun hKey l h => ?_
    have hObey : (Members.last key before item after).obey spacing =
        (before.isPlain && item.obeys spacing && after.isPlain) := by
      rw [Members.obey, hKey, Bool.true_and]
      rfl
    rw [hObey] at hFails hNext
    exact part_yields h (by simp) hss hFails hNext fun h hEnds =>
      Tree.yields item h hEnds hss
  | cons key before item after rest =>
    have h : Stands (n + 1) true (key.chars ++ (before.chars ++
        (item.chars ++ (after.chars ++ ',' :: (rest.chars ++ '\x7d' :: cs))))) l := by
      simpa [Members.chars] using h
    simp only [Members.symbols, List.append_assoc]
    refine Key.yields h (fun hBad => hFails (by simp [Members.obey, hBad])) fun hKey l h => ?_
    have hObey : (Members.cons key before item after rest).obey spacing =
        (before.isPlain && item.obeys spacing && after.isPlain && rest.obey spacing) := by
      rw [Members.obey, hKey, Bool.true_and]
      rfl
    rw [hObey] at hFails hNext
    refine part_yields h (by simp) (by simp) (fun hBad => hFails ?_) (fun hGood l h => ?_)
      fun h hEnds => Tree.yields item h hEnds (by simp)
    · rw [hBad, Bool.false_and]
    refine h.yields_comma fun l h => ?_
    refine Members.yields rest h hss (fun hBad => hFails ?_) fun hRest => hNext ?_
    · rw [hBad, Bool.and_false]
    · rw [hGood, hRest]
      rfl

end

/-! ## Documents -/

theorem Key.symbols_length (k : Key) : k.symbols.length ≤ k.chars.length := by
  have hSymbols : k.symbols.length ≤ 3 := by
    unfold Key.symbols
    split <;> simp
  have hChars : 3 ≤ k.chars.length := by
    simp only [Key.chars, Pieces.chars, List.length_append, List.length_cons, List.length_nil]
    omega
  exact Nat.le_trans hSymbols hChars

mutual

/-- There are no more tokens than characters. -/
theorem Tree.symbols_length : ∀ t : Tree, t.symbols.length ≤ t.chars.length
  | .null => by decide
  | .bool b => by cases b <;> decide
  | .number n => by
    obtain ⟨c, w, hChars, -⟩ := n.starts
    simp [Tree.symbols, Tree.chars, hChars]
  | .string ps => by simp [Tree.symbols, Tree.chars, Pieces.chars]
  | .emptyArray gap => by simp [Tree.symbols, Tree.chars]
  | .array items => by
    have h := items.symbols_length
    simp only [Tree.symbols, Tree.chars, List.length_cons, List.length_append]
    omega
  | .emptyObject gap => by simp [Tree.symbols, Tree.chars]
  | .object members => by
    have h := members.symbols_length
    simp only [Tree.symbols, Tree.chars, List.length_cons, List.length_append]
    omega

theorem Items.symbols_length : ∀ items : Items, items.symbols.length ≤ items.chars.length
  | .last before item after => by
    have h := item.symbols_length
    simp only [Items.symbols, Items.chars, List.length_append]
    omega
  | .cons before item after rest => by
    have h := item.symbols_length
    have hRest := rest.symbols_length
    simp only [Items.symbols, Items.chars, List.length_append, List.length_cons]
    omega

theorem Members.symbols_length : ∀ members : Members, members.symbols.length ≤ members.chars.length
  | .last key before item after => by
    have hKey := key.symbols_length
    have h := item.symbols_length
    simp only [Members.symbols, Members.chars, List.length_append]
    omega
  | .cons key before item after rest => by
    have hKey := key.symbols_length
    have h := item.symbols_length
    have hRest := rest.symbols_length
    simp only [Members.symbols, Members.chars, List.length_append, List.length_cons]
    omega

end

/-- The tokens of the text of a document are those of its tree. -/
theorem Document.stream_follows (d : Document) :
    Follows (d.isLaid = false) (d.obeys spacing = true) (d.tree.symbols ++ [.streamEnd])
      (Lexer.stream d.chars) := by
  have hStart : Stands 0 true (d.before.chars ++ (d.tree.chars ++ (d.after.chars ++ [])))
      { mark := Mark.start d.chars } := by
    have hChars : d.chars = d.before.chars ++ (d.tree.chars ++ (d.after.chars ++ [])) := by
      rw [List.append_nil]
      rfl
    rw [← hChars]
    exact .start d.chars
  have hEnds : EndsPlain ((0 : Nat) > 0) [] := ⟨.nil, rfl, nofun⟩
  have hYields : Yields (d.isLaid = false) (d.obeys spacing = true)
      { mark := Mark.start d.chars } (d.tree.symbols ++ [.streamEnd]) := by
    refine Gap.yields hStart (by simp) (fun hTab => ?_) fun hBefore h => ?_
    · simp [Document.isLaid, Document.obeys, spacing, hTab]
    refine Tree.yields d.tree h hEnds (by simp) (fun hFalse => ?_) fun hTree hAfter l h => ?_
    · show (Gap.isPlain d.before && d.tree.obeys spacing && Gap.isPlain d.after && _) = false
      rw [Bool.and_assoc (Gap.isPlain d.before), hFalse, Bool.and_false, Bool.false_and]
    · exact h.yields_of_end (by
        simp [Document.obeys, hTree, show spacing.gap d.after = true from hAfter,
          show spacing.gap d.before = true from hBefore])
  have hLength : (d.tree.symbols ++ [Symbol.streamEnd]).length ≤ tokenBound d.chars := by
    have hTree := d.tree.symbols_length
    have hChars : d.tree.chars.length ≤ d.chars.length := by
      simp only [Document.chars, List.length_append]
      omega
    simp only [List.length_append, List.length_cons, List.length_nil, tokenBound]
    omega
  rw [Lexer.stream, streamFrom_eq]
  exact hYields _ _ (Nat.le_refl _) hLength

end EntityGraph.Json
