import EntityGraph.Handlers.Formatted
import EntityGraph.Proofs.Handlers.Literal
import Mathlib.Data.List.Chain

/-!
# Names in laid out statements

A layout breaks a row of leaves at brackets and after commas and may add commas, but it neither
drops nor moves a leaf.  Marks, blanks and line breaks all end a word, so the leaves can be read one
by one, and the names of a statement do not depend on how its lines are broken.

* `Padded`: a row of leaves with commas added, and `layOut_padded`: a layout does no more;
* `Spells`: leaves that can be read one by one, with the names they evaluate;
* `spells_literalLeaves`: the leaves of a literal have the names of its value;
* `reads_laidOut`: so has the text of every layout of leaves.
-/

namespace EntityGraph.Handlers

open Expression

/-! ## What a layout does to leaves -/

/-- Leaves with commas added among them. -/
inductive Padded : List Leaf → List Leaf → Prop
  | nil : Padded [] []
  | keep {xs ys : List Leaf} (l : Leaf) (h : Padded xs ys) : Padded (l :: xs) (l :: ys)
  | comma {xs ys : List Leaf} (h : Padded xs ys) : Padded xs (Leaf.comma :: ys)

namespace Padded

variable {xs ys zs us vs : List Leaf}

theorem refl : (ls : List Leaf) → Padded ls ls
  | [] => .nil
  | l :: ls => .keep l (refl ls)

theorem append (h : Padded xs ys) (h' : Padded us vs) : Padded (xs ++ us) (ys ++ vs) := by
  induction h with
  | nil => exact h'
  | keep l _ ih => exact .keep l ih
  | comma _ ih => exact .comma ih

theorem trans (h : Padded xs ys) (h' : Padded ys zs) : Padded xs zs := by
  induction h' generalizing xs with
  | nil => exact h
  | comma _ ih => exact .comma (ih h)
  | keep l _ ih =>
    cases h with
    | keep _ h => exact .keep l (ih h)
    | comma h => exact .comma (ih h)

theorem flatMap {α : Type} {f g : α → List Leaf} {rows : List α}
    (h : ∀ r ∈ rows, Padded (f r) (g r)) : Padded (rows.flatMap f) (rows.flatMap g) := by
  induction rows with
  | nil => exact .nil
  | cons r rows ih =>
    rw [List.flatMap_cons, List.flatMap_cons]
    exact (h r List.mem_cons_self).append (ih fun q hq => h q (List.mem_cons_of_mem _ hq))

end Padded

namespace Row

theorem takeBody_eq {depth : Nat} {body ls b h : List Leaf}
    (hTake : takeBody depth body ls = some (b, h)) : h.reverse ++ b = ls.reverse ++ body := by
  induction ls generalizing depth body with
  | nil => cases hTake
  | cons l rest ih =>
    have hMove : rest.reverse ++ l :: body = (l :: rest).reverse ++ body := by simp
    unfold takeBody at hTake
    split_ifs at hTake with hOpening hClosing
    · cases depth with
      | zero =>
        obtain ⟨rfl, rfl⟩ := Prod.mk.inj (Option.some.inj hTake)
        rfl
      | succ d => exact (ih hTake).trans hMove
    · exact (ih hTake).trans hMove
    · exact (ih hTake).trans hMove

theorem lastPair_eq {tail ls head body last : List Leaf}
    (h : lastPair tail ls = some (head, body, last)) :
    head ++ (body ++ last) = ls.reverse ++ tail := by
  induction ls generalizing tail with
  | nil => cases h
  | cons l rest ih =>
    have hMove : rest.reverse ++ l :: tail = (l :: rest).reverse ++ tail := by simp
    unfold lastPair at h
    split_ifs at h with hClosing
    · cases rest with
      | nil => cases h
      | cons next more =>
        simp only at h
        split_ifs at h with hOpening
        · exact (ih h).trans hMove
        · obtain ⟨⟨b, before⟩, hTake, hParts⟩ := Option.map_eq_some_iff.mp h
          simp only [Prod.mk.injEq] at hParts
          obtain ⟨rfl, rfl, rfl⟩ := hParts
          rw [← List.append_assoc, takeBody_eq hTake, List.append_nil, hMove]
    · exact (ih h).trans hMove

theorem splitAt_leaves {r : Row} {keep : Nat} {rows : List Row}
    (h : r.splitAt keep = some rows) : rows.flatMap (·.leaves) = r.leaves := by
  obtain ⟨⟨head, body, tail⟩, hPair, rfl⟩ := Option.map_eq_some_iff.mp h
  have hParts := lastPair_eq hPair
  rw [← List.reverse_append, List.take_append_drop, List.reverse_reverse] at hParts
  simpa using hParts

theorem split_leaves {limit : Nat} {r : Row} {rows : List Row} (h : r.split limit = some rows) :
    rows.flatMap (·.leaves) = r.leaves := by
  rw [split] at h
  generalize (if r.isForced then [] else [0]) ++
    trailers limit (4 * r.depth) 0 0 false r.leaves.reverse = keeps at h
  induction keeps with
  | nil => exact splitAt_leaves h
  | cons keep rest ih =>
    rw [firstFitting] at h
    cases hSplit : r.splitAt keep with
    | none => simp [hSplit] at h
    | some first =>
      simp only [hSplit] at h
      split_ifs at h with hFits
      · exact Option.some.inj h ▸ splitAt_leaves hSplit
      · exact ih h

theorem divideLeaves_flatten (depth : Nat) (current ls : List Leaf) :
    (divideLeaves depth current ls).flatten = current.reverse ++ ls := by
  induction ls generalizing depth current with
  | nil =>
    rw [divideLeaves]
    split_ifs with hEmpty
    · simp [List.isEmpty_iff.mp hEmpty]
    · simp
  | cons l rest ih =>
    rw [divideLeaves]
    split
    · simp [ih]
    · exact (ih _ _).trans (by simp)

theorem divide_padded {r : Row} {rows : List Row} (h : r.divide = some rows) :
    Padded r.leaves (rows.flatMap (·.leaves)) := by
  rw [divide] at h
  split_ifs at h with hNone hEnds
  · obtain rfl := Option.some.inj h
    simp only [List.flatMap_map, List.flatMap_id', divideLeaves_flatten]
    exact .refl _
  · obtain rfl := Option.some.inj h
    simp only [List.flatMap_map, List.flatMap_id', divideLeaves_flatten]
    have hAdded : Padded [] [Leaf.comma] := .comma .nil
    simpa using (Padded.refl r.leaves).append hAdded

theorem break?_padded {limit : Nat} {r : Row} {rows : List Row} (h : r.break? limit = some rows) :
    Padded r.leaves (rows.flatMap (·.leaves)) := by
  obtain ⟨rows', hRows, hSame⟩ := Option.bind_eq_some_iff.mp h
  have hSplit : r.split limit = some rows' → Padded r.leaves (rows'.flatMap (·.leaves)) := by
    intro hRows
    rw [split_leaves hRows]
    exact .refl _
  split_ifs at hSame
  obtain rfl := Option.some.inj hSame
  split_ifs at hRows with hBody
  · cases hDivide : r.divide with
    | none => exact hSplit (by simpa [hDivide] using hRows)
    | some divided =>
      simp only [hDivide, Option.some.injEq] at hRows
      exact hRows ▸ divide_padded hDivide
  · exact hSplit hRows

theorem breakAll_padded (limit fuel : Nat) (r : Row) :
    Padded r.leaves ((breakAll limit fuel r).flatMap (·.leaves)) := by
  induction fuel generalizing r with
  | zero => simpa [breakAll] using Padded.refl r.leaves
  | succ fuel ih =>
    rw [breakAll]
    split_ifs
    · simpa using Padded.refl r.leaves
    · cases hBreak : r.break? limit with
      | none => simpa using Padded.refl r.leaves
      | some rows =>
        have hRows : Padded (rows.flatMap (·.leaves))
            ((rows.flatMap (breakAll limit fuel)).flatMap (·.leaves)) := by
          rw [List.flatMap_assoc]
          exact .flatMap fun row _ => ih row
        exact (break?_padded hBreak).trans hRows

/-- A layout only adds commas. -/
theorem layOut_padded (limit depth : Nat) (leaves : List Leaf) :
    Padded leaves ((layOut limit depth leaves).flatMap (·.leaves)) := by
  have hOnce : ∀ ls : List Leaf, Padded ls
      ((breakAll limit (ls.length + 1) ⟨depth, .whole, false, ls⟩).flatMap (·.leaves)) :=
    fun ls => breakAll_padded limit _ ⟨depth, .whole, false, ls⟩
  exact (hOnce leaves).trans (hOnce _)

end Row

/-! ## Reading leaves one by one -/

/-- A leaf that ends the word before it and starts none. -/
def Leaf.IsMark (l : Leaf) : Prop := ∃ c, l.text.toList = [c] ∧ closes c = true

def Leaf.names (l : Leaf) : List String := Expression.names l.text.toList

/-- Two leaves that do not run into one word. -/
def Leaf.Divided (l m : Leaf) : Prop := l.IsMark ∨ m.IsMark ∨ m.spaced = true

/-- Leaves that can be read one by one, with their names. -/
structure Spells (ls : List Leaf) (ns : List String) : Prop where
  reads : ∀ l ∈ ls, Reads l.text.toList l.names
  divided : ls.IsChain Leaf.Divided
  names : ls.flatMap Leaf.names = ns

namespace Leaf

theorem isMark_comma : comma.IsMark := ⟨',', rfl, by decide⟩

theorem isMark_openCall : openCall.IsMark := ⟨'(', rfl, by decide⟩

theorem IsMark.names_eq {l : Leaf} (h : l.IsMark) : l.names = [] := by
  obtain ⟨c, hText, hCloses⟩ := h
  rw [names, hText, names_closes hCloses]
  rfl

theorem IsMark.reads {l : Leaf} (h : l.IsMark) : Reads l.text.toList l.names := by
  rw [h.names_eq]
  obtain ⟨c, hText, hCloses⟩ := h
  rw [hText]
  exact .cons hCloses .nil

end Leaf

namespace Spells

variable {a b : List Leaf} {ns ms : List String}

theorem nil : Spells [] [] := ⟨by simp, .nil, rfl⟩

theorem left (h : Spells (a ++ b) ns) : Spells a (a.flatMap Leaf.names) :=
  ⟨fun l hl => h.reads l (List.mem_append_left _ hl), (List.isChain_append.mp h.divided).1, rfl⟩

theorem right (h : Spells (a ++ b) ns) : Spells b (b.flatMap Leaf.names) :=
  ⟨fun l hl => h.reads l (List.mem_append_right _ hl), (List.isChain_append.mp h.divided).2.1, rfl⟩

theorem leaf {t : String} (h : Reads t.toList ns) : Spells [Leaf.plain t] ns := by
  have hNames : (Leaf.plain t).names = ns := h.names_eq
  refine ⟨?_, .singleton _, by simpa using hNames⟩
  intro l hl
  obtain rfl := List.mem_singleton.mp hl
  rw [hNames]
  exact h

/-- A mark between two rows of leaves. -/
theorem around {l : Leaf} (ha : Spells a ns) (hMark : l.IsMark) (hb : Spells b ms) :
    Spells (a ++ l :: b) (ns ++ ms) := by
  refine ⟨?_, ?_, ?_⟩
  · intro m hm
    rcases List.mem_append.mp hm with hm | hm
    · exact ha.reads m hm
    · rcases List.mem_cons.mp hm with rfl | hm
      · exact hMark.reads
      · exact hb.reads m hm
  · refine List.isChain_append.mpr ⟨ha.divided, ?_, ?_⟩
    · cases b with
      | nil => exact .singleton _
      | cons m b => exact .cons_cons (.inl hMark) hb.divided
    · intro m _ k hk
      obtain rfl : l = k := by simpa using hk
      exact .inr (.inl hMark)
  · rw [List.flatMap_append, List.flatMap_cons, hMark.names_eq, List.nil_append, ha.names, hb.names]

theorem marked {l : Leaf} (hMark : l.IsMark) (h : Spells b ms) : Spells (l :: b) ms := by
  simpa using nil.around hMark h

/-- A blank before leaves. -/
theorem spaced {l : Leaf} (h : Spells (l :: b) ns) : Spells ({ l with spaced := true } :: b) ns := by
  refine ⟨?_, ?_, ?_⟩
  · intro m hm
    rcases List.mem_cons.mp hm with rfl | hm
    · exact h.reads l List.mem_cons_self
    · exact h.reads m (List.mem_cons_of_mem _ hm)
  · cases b with
    | nil => exact .singleton _
    | cons m b =>
      obtain ⟨hFirst, hRest⟩ := List.isChain_cons_cons.mp h.divided
      exact .cons_cons hFirst hRest
  · simpa [Leaf.names] using h.names

theorem padded (h : Padded a b) (ha : Spells a ns) : Spells b ns := by
  induction h generalizing ns with
  | nil => exact ha
  | comma _ ih => exact marked Leaf.isMark_comma (ih ha)
  | @keep xs ys l hPadded ih =>
    have hRest : Spells ys (xs.flatMap Leaf.names) := ih (right (a := [l]) ha)
    refine ⟨?_, ?_, ?_⟩
    · exact List.forall_mem_cons.mpr ⟨ha.reads l List.mem_cons_self, hRest.reads⟩
    · cases hPadded with
      | nil => exact .singleton _
      | comma _ => exact .cons_cons (.inr (.inl Leaf.isMark_comma)) hRest.divided
      | keep m _ => exact .cons_cons (List.isChain_cons_cons.mp ha.divided).1 hRest.divided
    · rw [List.flatMap_cons, hRest.names, ← List.flatMap_cons, ha.names]

end Spells

/-! ## The text of a layout -/

namespace Row

theorem reads_following {l : Leaf} {ls : List Leaf} {ns : List String} (h : Spells (l :: ls) ns) :
    Reads (l.text.toList ++ (following ls).toList) ns := by
  induction ls generalizing l ns with
  | nil =>
    obtain rfl : l.names = ns := by simpa using h.names
    simpa [following] using h.reads l List.mem_cons_self
  | cons m ls ih =>
    have hLater := ih (Spells.right (a := [l]) h)
    have hFirst := h.reads l List.mem_cons_self
    have hNames : l.names ++ (m :: ls).flatMap Leaf.names = ns := by simpa using h.names
    have hDivided : l.Divided m := (List.isChain_cons_cons.mp h.divided).1
    rw [← hNames]
    by_cases hSpaced : m.spaced = true
    · simpa [following, hSpaced] using hFirst.append (c := ' ') (by decide) hLater
    · have hText : (following (m :: ls)).toList = m.text.toList ++ (following ls).toList := by
        simp [following, hSpaced]
      rw [hText]
      rcases hDivided with hMark | hMark | hBlank
      · obtain ⟨c, hSingle, hCloses⟩ := hMark
        have hNone : l.names = [] := Leaf.IsMark.names_eq ⟨c, hSingle, hCloses⟩
        rw [hSingle, hNone]
        exact .cons hCloses hLater
      · obtain ⟨c, hSingle, hCloses⟩ := hMark
        rw [hSingle] at hLater ⊢
        exact hFirst.before hCloses hLater
      · exact absurd hBlank hSpaced

theorem reads_text {r : Row} {ns : List String} (h : Spells r.leaves ns) :
    Reads r.text.toList ns := by
  rw [text]
  cases hLeaves : r.leaves with
  | nil =>
    obtain rfl : [] = ns := by simpa [hLeaves] using h.names
    exact .nil
  | cons l ls =>
    rw [hLeaves] at h
    have hMargin : (margin r.depth).toList = List.replicate (4 * r.depth) ' ' := by simp [margin]
    rw [String.toList_append, String.toList_append, hMargin, List.append_assoc]
    refine (reads_following h).marks fun c hc => ?_
    obtain rfl := List.eq_of_mem_replicate hc
    decide

end Row

/-- The lines of a layout have the names of its leaves. -/
theorem reads_laidOut {leaves : List Leaf} {ns : List String} (limit depth : Nat)
    (h : Spells leaves ns) :
    Reads ("\n".intercalate (laidOut limit depth leaves)).toList ns := by
  have hBreak : IsSeparator "\n" := ⟨by decide, List.all_eq_true.mp (by decide)⟩
  have hAll := h.padded (Row.layOut_padded limit depth leaves)
  have hRows : ∀ r ∈ Row.layOut limit depth leaves,
      Reads r.text.toList (r.leaves.flatMap Leaf.names) := by
    intro r hr
    obtain ⟨before, after, hSplit⟩ := List.append_of_mem hr
    rw [hSplit, List.flatMap_append, List.flatMap_cons] at hAll
    exact Row.reads_text hAll.right.left
  have hLines := reads_joined hBreak hRows
  rwa [← List.flatMap_assoc, hAll.names] at hLines

/-! ## The leaves of literals -/

theorem spells_separated {item : List Leaf} {items : List (List Leaf)} {ns ms : List String}
    (h : Spells item ns) (hRest : Spells (Leaf.separated items) ms) (hNone : items = [] → ms = []) :
    Spells (Leaf.separated (item :: items)) (ns ++ ms) := by
  cases items with
  | nil => simpa [Leaf.separated, hNone rfl] using h
  | cons next more =>
    rw [Leaf.separated]
    · split
      · rename_i hEmpty
        rw [hEmpty] at hRest
        exact h.around Leaf.isMark_comma hRest
      · rename_i l ls hLeaves
        rw [hLeaves] at hRest
        exact h.around Leaf.isMark_comma hRest.spaced
    · simp

theorem spells_arguments {α : Type} {f : α → List Leaf} {g : α → List String} {xs : List α}
    (h : ∀ x ∈ xs, Spells (f x) (g x)) :
    Spells (Leaf.separated (xs.map f)) (xs.flatMap g) := by
  induction xs with
  | nil => exact .nil
  | cons x xs ih =>
    refine spells_separated (h x List.mem_cons_self)
      (ih fun y hy => h y (List.mem_cons_of_mem _ hy)) fun hEmpty => ?_
    rw [List.map_eq_nil_iff.mp hEmpty]
    rfl

/-- Numbers before other arguments. -/
theorem spells_numbers {items : List (List Leaf)} {ms : List String} (ns : List Nat)
    (hRest : Spells (Leaf.separated items) ms) (hNone : items = [] → ms = []) :
    Spells (Leaf.separated (ns.map numberLeaves ++ items)) ms := by
  induction ns with
  | nil => exact hRest
  | cons n ns ih =>
    have hNumber : Spells (numberLeaves n) [] := .leaf (reads_nat n)
    exact spells_separated hNumber ih fun hEmpty => hNone (List.append_eq_nil_iff.mp hEmpty).2

theorem spells_callLeaves {callee : String} {arguments : List (List Leaf)} {ns ms : List String}
    (hCallee : Reads callee.toList ns) (h : Spells (Leaf.separated arguments) ms) :
    Spells (callLeaves callee arguments) (ns ++ ms) := by
  have hClosing : (Leaf.closing ")").IsMark := ⟨')', rfl, by decide⟩
  have hArguments := h.around hClosing .nil
  rw [List.append_nil] at hArguments
  exact (Spells.leaf hCallee).around Leaf.isMark_openCall hArguments

theorem spells_bracketed {a b : Char} (hOpening : closes a = true) (hClosing : closes b = true)
    {items : List (List Leaf)} {ns : List String} (h : Spells (Leaf.separated items) ns) :
    Spells (bracketed (String.singleton a) (String.singleton b) items) ns := by
  have hEnd : (Leaf.closing (String.singleton b)).IsMark := ⟨b, by simp [Leaf.closing], hClosing⟩
  have hItems := h.around hEnd .nil
  rw [List.append_nil] at hItems
  exact .marked ⟨a, by simp, hOpening⟩ hItems

theorem quoteOf_isQuote (cs : List Char) : isQuote (quoteOf cs) = true := by
  unfold quoteOf
  split <;> decide

theorem reads_quotedText (s : String) : Reads (quotedText s).toList [] := by
  simpa [quotedText] using reads_between (quoteOf_isQuote s.toList) s.toList

theorem spells_spanLeaves (minutes : Int) : Spells (spanLeaves minutes) ["datetime"] := by
  have hParts : Spells (Leaf.separated ((spanParts minutes).map fun p => [.plain p]))
      ((spanParts minutes).flatMap fun _ => []) :=
    spells_arguments fun p hp => .leaf (reads_spanParts minutes p hp)
  have hNone : ((spanParts minutes).flatMap fun _ => ([] : List String)) = [] := by simp
  have hCallee : Reads "datetime.timedelta".toList ["datetime"] := Reads.word (by decide)
  rw [hNone] at hParts
  exact spells_callLeaves hCallee hParts

/-- The leaves of a moment's zone, if it has one. -/
def zoneLeaves (m : Moment) : List (List Leaf) :=
  match m.offset with
  | none => []
  | some 0 => [[.plain "tzinfo=datetime.timezone.utc"]]
  | some minutes => [callLeaves "tzinfo=datetime.timezone" [spanLeaves minutes]]

theorem momentLeaves_eq (m : Moment) : momentLeaves m =
    callLeaves "datetime.datetime" ((momentNumbers m).map numberLeaves ++ zoneLeaves m) := rfl

theorem spells_zoneLeaves (m : Moment) : Spells (Leaf.separated (zoneLeaves m)) m.zoneNames := by
  have hName : IsWord ['t', 'z', 'i', 'n', 'f', 'o'] := by decide
  have hUtc : Reads "tzinfo=datetime.timezone.utc".toList ["datetime"] :=
    Reads.argument hName (Reads.word (w := "datetime.timezone.utc".toList) (by decide))
  have hZone : Reads "tzinfo=datetime.timezone".toList ["datetime"] :=
    Reads.argument hName (Reads.word (w := "datetime.timezone".toList) (by decide))
  unfold zoneLeaves
  split
  · rename_i hOffset
    rw [Moment.zoneNames, hOffset]
    exact .nil
  · rename_i hOffset
    rw [Moment.zoneNames, hOffset]
    exact .leaf hUtc
  · rename_i minutes hSome hOffset
    have hSpan : Spells (Leaf.separated [spanLeaves minutes]) ["datetime"] :=
      spells_spanLeaves minutes
    have hCall := spells_callLeaves hZone hSpan
    simpa [Moment.zoneNames, hOffset, Leaf.separated] using hCall

theorem spells_momentLeaves (m : Moment) : Spells (momentLeaves m) m.names := by
  have hCallee : Reads "datetime.datetime".toList ["datetime"] := Reads.word (by decide)
  have hNone : zoneLeaves m = [] → m.zoneNames = [] := by
    unfold zoneLeaves
    split <;> simp_all [Moment.zoneNames]
  rw [momentLeaves_eq]
  exact spells_callLeaves hCallee (spells_numbers (momentNumbers m) (spells_zoneLeaves m) hNone)

theorem spells_dateLeaves (d : Date) : Spells (literalLeaves (.date d)) ["datetime"] := by
  have hCallee : Reads "datetime.date".toList ["datetime"] := Reads.word (by decide)
  have hNothing : Spells (Leaf.separated []) [] := .nil
  rw [literalLeaves]
  exact spells_callLeaves hCallee
    (spells_numbers [d.year, d.month, d.day] hNothing fun _ => rfl)

mutual

/-- The leaves of a literal have the names of its value. -/
theorem spells_literalLeaves : ∀ v : Value, Spells (literalLeaves v) v.names
  | .null => .leaf reads_null
  | .bool b => .leaf (reads_bool b)
  | .int i => .leaf (reads_int i)
  | .float x => .leaf (by simpa [plainFloat, Value.names] using x.reads_signless)
  | .text s => .leaf (reads_quotedText s)
  | .illFormed ps => by
    have hRead := reads_pointsBetween (quoteOf_isQuote (ps.map Text.Point.shown)) ps
    exact .leaf (by simpa [quotedRow, Value.names] using hRead)
  | .bytes bs => by
    have hRead := reads_bytesBetween (quoteOf_isQuote (bs.map fun b => Char.ofNat b.toNat)) bs
    exact .leaf (by simpa [quotedBytes, Value.names] using hRead)
  | .date d => spells_dateLeaves d
  | .moment m => spells_momentLeaves m
  | .list xs => by
    have hItems := spells_bracketed (a := '[') (b := ']') (by decide) (by decide)
      (spells_itemLeaves xs)
    simpa [literalLeaves, Value.names] using hItems
  | .tuple xs => by
    have hItems := spells_bracketed (a := '(') (b := ')') (by decide) (by decide)
      (spells_itemLeaves xs)
    simpa [literalLeaves, Value.names] using hItems
  | .set [] => by
    have hCallee : Reads "set".toList ["set"] := Reads.word (by decide)
    have hNothing : Spells (Leaf.separated []) [] := .nil
    have hCall := spells_callLeaves hCallee hNothing
    simpa [literalLeaves, Value.names] using hCall
  | .set (x :: xs) => by
    have hItems := spells_bracketed (a := '\x7b') (b := '\x7d') (by decide) (by decide)
      (spells_itemLeaves (x :: xs))
    simpa [literalLeaves, Value.names] using hItems
  | .map es => by
    have hItems := spells_bracketed (a := '\x7b') (b := '\x7d') (by decide) (by decide)
      (spells_entryLeaves es)
    simpa [literalLeaves, Value.names] using hItems

theorem spells_itemLeaves : ∀ xs : List Value,
    Spells (Leaf.separated (itemLeaves xs)) (Value.namesOfItems xs)
  | [] => .nil
  | x :: xs => by
    have hNone : itemLeaves xs = [] → Value.namesOfItems xs = [] := by
      cases xs <;> simp [itemLeaves, Value.namesOfItems]
    simpa [itemLeaves, Value.namesOfItems] using
      spells_separated (spells_literalLeaves x) (spells_itemLeaves xs) hNone

theorem spells_entryLeaves : ∀ es : List (Value × Value),
    Spells (Leaf.separated (entryLeaves es)) (Value.namesOfEntries es)
  | [] => .nil
  | (k, v) :: es => by
    have hColon : (Leaf.plain ":").IsMark := ⟨':', rfl, by decide⟩
    have hNone : entryLeaves es = [] → Value.namesOfEntries es = [] := by
      cases es <;> simp [entryLeaves, Value.namesOfEntries]
    have hKey := spells_literalLeaves k
    have hValue := spells_literalLeaves v
    have hRest := spells_entryLeaves es
    rw [entryLeaves, Value.namesOfEntries]
    refine spells_separated ?_ hRest hNone
    cases hLeaves : literalLeaves v with
    | nil =>
      rw [hLeaves] at hValue
      exact hKey.around hColon hValue
    | cons l ls =>
      rw [hLeaves] at hValue
      exact hKey.around hColon hValue.spaced

end

/-! ## Statements -/

theorem spells_statementLeaves {s : Statement} {ns : List String} (hKind : Reads s.kind.toList ns) :
    Spells (statementLeaves s) (ns ++ s.parameters.flatMap Value.names) := by
  have hParameters := spells_arguments fun p (_ : p ∈ s.parameters) => spells_literalLeaves p
  have hPlaces : Spells (Leaf.separated [[.plain (quotedText s.target)],
      [.plain (quotedText s.field)]]) [] :=
    spells_separated (.leaf (reads_quotedText s.target)) (.leaf (reads_quotedText s.field)) (by simp)
  have hClosing : (Leaf.closing ")").IsMark := ⟨')', rfl, by decide⟩
  have hTail := hPlaces.around hClosing .nil
  have hAll := (spells_callLeaves hKind hParameters).around Leaf.isMark_openCall hTail
  simpa [statementLeaves] using hAll

end EntityGraph.Handlers
