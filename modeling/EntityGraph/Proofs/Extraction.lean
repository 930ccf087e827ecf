import EntityGraph.Proofs.Substitution

/-!
# Words by a search

The words of a name can also be found by one search, through the name with a blank for everything
that is no letter and no digit.  A word is a run of small letters with or without a capital before
it, a run of digits, or a run of capitals.  Such a run gives up its last capital if a small letter
follows, since that capital starts the next word.

* `wordPattern`, `extracted`: the pattern of a word, and what the search finds in a name;
* `runs_whole`: when a run of a name ends;
* `FindsWord`, `findsWord`: the first match at a letter or digit is the first of the runs;
* `extracted_eq`: the search finds the words.
-/

namespace EntityGraph.Naming

open Pattern Substitution

/-- Small letters, with or without a capital before them. -/
def smallWord : Pattern := .both (.optional Char.isUpper) (.repeated 1 Char.isLower)

/-- What follows capitals that make a word: the start of another word or the end of this one. -/
def capitalEnd : Pattern :=
  .ahead (.either (.both (.one Char.isUpper) (.one Char.isLower)) (.either (.one Char.isDigit) .edge))

/-- Capitals without a small letter behind them. -/
def capitalWord : Pattern := .both (.repeated 1 Char.isUpper) capitalEnd

/-- A word of a name. -/
def wordPattern : Pattern :=
  .either smallWord
    (.either capitalWord (.either (.one Char.isUpper) (.repeated 1 Char.isDigit)))

/-- The words that a search finds in a name. -/
def extracted (name : List Char) : List (List Char) :=
  (findFrom wordPattern none ((blank ' ').apply name)).map lower

/-! ## Where a run ends -/

/-- A run that nothing divides, with an end or a division behind it, is the first run. -/
theorem runs_whole {division : Division} {w rest : List Char} (hSome : w ≠ [])
    (hWord : ∀ c ∈ w, c.isAlphanum = true)
    (hWhole : ∀ u c d v, w = u ++ c :: d :: v → division c d (v ++ rest).head? = false)
    (hEnd : ∀ c d more, c ∈ w → rest = d :: more → d.isAlphanum = true →
      division c d more.head? = true) :
    runs division (w ++ rest) = w :: runs division rest := by
  induction w with
  | nil => exact absurd rfl hSome
  | cons c w ih =>
    obtain ⟨hc, hWord⟩ := List.forall_mem_cons.mp hWord
    cases w with
    | nil =>
      cases rest with
      | nil => exact runs_singleton hc
      | cons d more =>
        by_cases hd : d.isAlphanum = true
        · exact (runs_cons hc hd).trans (if_pos (hEnd c d more (.head _) rfl hd))
        · exact runs_divided hc hd
    | cons d v =>
      have hInner := ih (by simp) hWord
        (fun u a b v hText => hWhole (c :: u) a b v (by rw [hText]; rfl))
        fun a b more ha => hEnd a b more (List.mem_cons_of_mem _ ha)
      have hOne := hWhole [] c d v rfl
      rw [List.cons_append] at hInner
      rw [List.cons_append, List.cons_append, runs_cons hc (hWord d List.mem_cons_self), hOne,
        if_neg Bool.false_ne_true, hInner]
      rfl

section

variable {kind : Char → Bool} {c d : Char} {w rest : List Char} {before : Option Char}

/-- Characters of one class make a run if another one follows them; small letters may not follow
capitals. -/
theorem runs_class (hClass : kind = Char.isUpper ∨ kind = Char.isLower ∨ kind = Char.isDigit)
    (hSome : w ≠ []) (hKind : ∀ c ∈ w, kind c = true) (hNext : rest.head?.any kind = false)
    (hSmall : kind = Char.isDigit ∨ rest.head?.any Char.isLower = false) :
    runs startsWord (w ++ rest) = w :: runs startsWord rest := by
  have hWord : ∀ c, kind c = true → c.isAlphanum = true := by
    intro c hc
    rcases hClass with rfl | rfl | rfl
    · exact isAlphanum_of_isUpper hc
    · exact isAlphanum_of_isLower hc
    · exact isAlphanum_of_isDigit hc
  refine runs_whole hSome (fun c hc => hWord c (hKind c hc)) ?_ ?_
  · rintro u c d v rfl
    have hc : kind c = true := hKind c (by simp)
    have hd : kind d = true := hKind d (by simp)
    have hC := class_spec (hWord c hc)
    have hD := class_spec (hWord d hd)
    rcases hClass with rfl | rfl | rfl
    · have hRest : rest.head?.any Char.isLower = false :=
        hSmall.resolve_left fun hKinds => absurd (congrFun hKinds 'A') (by decide)
      have hAfter : (v ++ rest).head?.any Char.isLower = false :=
        head?_not_isLower (fun a ha => hKind a (by simp [ha])) hRest
      simp_all [startsWord, startsSegment]
    · simp_all [startsWord, startsSegment]
    · simp_all [startsWord, startsSegment]
  · rintro c d more hc rfl hd
    have hC := class_spec (hWord c (hKind c hc))
    have hc := hKind c hc
    rcases class_spec hd with hD | hD | hD <;> rcases hClass with rfl | rfl | rfl <;>
      simp_all [startsWord, startsSegment]

/-- Several capitals leave the last one to a small letter behind it. -/
theorem runs_capitals (hSome : w ≠ []) (hw : ∀ a ∈ w, a.isUpper = true) (hd : d.isUpper = true)
    (hLower : rest.head?.any Char.isLower = true) :
    runs startsWord (w ++ d :: rest) = w :: runs startsWord (d :: rest) := by
  have hOnly : runs startsWord (w ++ []) = [w] :=
    runs_class (.inl rfl) hSome hw rfl (.inr rfl)
  obtain ⟨e, more, rfl, he⟩ := exists_head hLower
  rw [List.append_nil] at hOnly
  rw [runs_append startsWord_capitals w hd (not_isLower_of_isUpper hd) he, hOnly]
  rfl

/-! ## The first match -/

theorem ends_repeated_eq_nil {cs : List Char} (h : cs.head?.any kind = false) :
    (Pattern.repeated 1 kind).ends before cs = [] := by
  cases cs with
  | nil => rfl
  | cons c cs =>
    have hc : kind c = false := h
    simp [hc]

/-- A capital belongs to the small letters behind it. -/
theorem ends_smallWord_capital (hc : c.isUpper = true) (cs : List Char) :
    smallWord.ends before (c :: cs) =
      ((Pattern.repeated 1 Char.isLower).ends (some c) cs).map (1 + ·) := by
  have hSmall : c.isLower = false := not_isLower_of_isUpper hc
  have hNone : (Pattern.repeated 1 Char.isLower).ends before (c :: cs) = [] :=
    ends_repeated_eq_nil hSmall
  have hBoth : (Pattern.optional Char.isUpper).ends before (c :: cs) = [1, 0] := by simp [hc]
  rw [smallWord, ends_both, hBoth]
  change _ ++ (((Pattern.repeated 1 Char.isLower).ends before (c :: cs)).map (0 + ·) ++ []) = _
  rw [hNone, List.map_nil, List.append_nil, List.append_nil]
  rfl

theorem ends_smallWord (hc : c.isUpper = false) (cs : List Char) :
    smallWord.ends before (c :: cs) = (Pattern.repeated 1 Char.isLower).ends before (c :: cs) := by
  have hNone : (Pattern.optional Char.isUpper).ends before (c :: cs) = [0] := by simp [hc]
  rw [smallWord, ends_both, hNone]
  simp

theorem ends_capitalEnd_capital (hc : c.isUpper = true) (hd : d.isLower = true) :
    capitalEnd.ends before (c :: d :: rest) = [0] := by
  simp [capitalEnd, hc, hd]

/-- Behind the last of several capitals a word ends unless a small letter follows. -/
theorem ends_capitalEnd (hc : c.isUpper = true) (hNext : rest.head?.any Char.isUpper = false)
    (hChars : ∀ d ∈ rest, d.isAlphanum = true ∨ d = ' ') :
    capitalEnd.ends (some c) rest = if rest.head?.any Char.isLower then [] else [0] := by
  have hInner : isInner c = true := by simp [isInner, isAlphanum_of_isUpper hc]
  cases rest with
  | nil => simp [capitalEnd, hInner]
  | cons d rest =>
    have hd : d.isUpper = false := hNext
    rcases hChars d (.head _) with hWord | rfl
    · have hInner' : isInner d = true := by simp [isInner, hWord]
      rcases class_spec hWord with hD | hD | hD
      · simp [hd] at hD
      · simp [capitalEnd, hD, hInner, hInner']
      · simp [capitalEnd, hD]
    · have hOuter : isInner ' ' = false := by decide
      simp [capitalEnd, hInner, hOuter, not_class (c := ' ') (by decide)]

/-- All capitals of a run are taken, but not the last one if a small letter follows it. -/
theorem head?_ends_capitalWord {v : List Char} (hv : ∀ a ∈ v ++ [d], a.isUpper = true)
    (hNext : rest.head?.any Char.isUpper = false)
    (hChars : ∀ a ∈ rest, a.isAlphanum = true ∨ a = ' ')
    (hSmall : rest.head?.any Char.isLower = true → v ≠ []) :
    (capitalWord.ends before (v ++ [d] ++ rest)).head? =
      some (if rest.head?.any Char.isLower then v.length else v.length + 1) := by
  have hd : d.isUpper = true := hv d (by simp)
  have hRun : (v ++ [d] ++ rest).takeWhile Char.isUpper = v ++ [d] := by
    rw [List.takeWhile_append_of_pos hv]
    cases rest with
    | nil => simp
    | cons e rest =>
      have he : e.isUpper = false := hNext
      simp [he]
  have hLength : (v ++ [d]).length = v.length + 1 := by simp
  have hLatest : latest before ((v ++ [d] ++ rest).take (v.length + 1)) = some d := by
    rw [← hLength, List.take_left, latest, List.getLast?_concat, Option.some_or]
  have hRest : (v ++ [d] ++ rest).drop (v.length + 1) = rest := by rw [← hLength, List.drop_left]
  have hAll : (Pattern.repeated 1 Char.isUpper).ends before (v ++ [d] ++ rest) =
      (v.length + 1) :: (List.range (v.length + 1)).reverse.filter (1 ≤ ·) := by
    rw [ends, hRun, hLength, List.range_succ, List.reverse_concat,
      List.filter_cons_of_pos (by simp)]
  rw [capitalWord, ends_both, hAll, List.flatMap_cons, hLatest, hRest,
    ends_capitalEnd hd hNext hChars]
  cases hLower : rest.head?.any Char.isLower with
  | false => rfl
  | true =>
    obtain ⟨e, more, rfl, he⟩ := exists_head hLower
    have hDrop : (v ++ [d] ++ e :: more).drop v.length = d :: e :: more := by simp
    have hSome : 1 ≤ v.length := List.length_pos_of_ne_nil (hSmall hLower)
    rw [if_pos rfl, if_pos rfl, List.map_nil, List.nil_append, List.range_succ,
      List.reverse_concat, List.filter_cons_of_pos (by simpa using hSome), List.flatMap_cons,
      hDrop, ends_capitalEnd_capital hd he]
    rfl

theorem ends_wordPattern (cs : List Char) : wordPattern.ends before cs =
    smallWord.ends before cs ++ (capitalWord.ends before cs ++
      ((Pattern.one Char.isUpper).ends before cs ++
        (Pattern.repeated 1 Char.isDigit).ends before cs)) := rfl

/-- What the search does at a letter or digit: its match is the first of the runs. -/
def FindsWord (before : Option Char) (cs : List Char) : Prop :=
  ∃ w rest, cs = w ++ rest ∧ w ≠ [] ∧ (wordPattern.ends before cs).head? = some w.length ∧
    runs startsWord cs = w :: runs startsWord rest

variable {cs : List Char}

theorem findsWord_lower (hc : c.isUpper = false ∧ c.isLower = true ∧ c.isDigit = false) :
    FindsWord before (c :: cs) := by
  obtain ⟨v, rest, rfl, hRun, hv, hRest⟩ := run_cons hc.2.1 cs
  refine ⟨c :: v, rest, rfl, by simp, ?_,
    runs_class (.inr (.inl rfl)) (by simp) hv hRest (.inr hRest)⟩
  rw [ends_wordPattern, ends_smallWord hc.1, List.head?_append, head?_ends_repeated hRun (by simp),
    Option.some_or]

theorem findsWord_digit (hc : c.isUpper = false ∧ c.isLower = false ∧ c.isDigit = true) :
    FindsWord before (c :: cs) := by
  obtain ⟨v, rest, rfl, hRun, hv, hRest⟩ := run_cons hc.2.2 cs
  have hNone : ∀ kind : Char → Bool, kind c = false →
      (Pattern.repeated 1 kind).ends before (c :: (v ++ rest)) = [] :=
    fun kind hKind => ends_repeated_eq_nil hKind
  have hSmall : smallWord.ends before (c :: (v ++ rest)) = [] := by
    rw [ends_smallWord hc.1, hNone _ hc.2.1]
  have hCapitals : capitalWord.ends before (c :: (v ++ rest)) = [] := by
    rw [capitalWord, ends_both, hNone _ hc.1]
    rfl
  have hCapital : (Pattern.one Char.isUpper).ends before (c :: (v ++ rest)) = [] := by simp [hc.1]
  refine ⟨c :: v, rest, rfl, by simp, ?_,
    runs_class (.inr (.inr rfl)) (by simp) hv hRest (.inl rfl)⟩
  rw [ends_wordPattern, hSmall, hCapitals, hCapital, List.nil_append, List.nil_append,
    List.nil_append]
  exact head?_ends_repeated hRun (by simp)

/-- A capital with small letters behind it. -/
theorem findsWord_capital (hc : c.isUpper = true) (hNext : cs.head?.any Char.isLower = true) :
    FindsWord before (c :: cs) := by
  obtain ⟨d, cs, rfl, hd⟩ := exists_head hNext
  obtain ⟨v, rest, rfl, hRun, hv, hRest⟩ := run_cons hd cs
  refine ⟨c :: d :: v, rest, rfl, by simp, ?_, ?_⟩
  · rw [ends_wordPattern, ends_smallWord_capital hc, List.head?_append, List.head?_map,
      head?_ends_repeated hRun (by simp), List.length_cons (a := c), Nat.add_comm]
    rfl
  · have hWhole : startsWord c d (v ++ rest).head? = false := by
      simp [startsWord, startsSegment, not_isUpper_of_isLower hd, not_isDigit_of_isUpper hc,
        not_isDigit_of_isLower hd]
    rw [runs_cons (isAlphanum_of_isUpper hc) (isAlphanum_of_isLower hd), hWhole,
      ← List.cons_append, runs_class (.inr (.inl rfl)) (by simp) hv hRest (.inr hRest)]
    rfl

/-- Several capitals, or one without a small letter behind it. -/
theorem findsWord_capitals (hc : c.isUpper = true) (hNext : cs.head?.any Char.isLower = false)
    (hChars : ∀ a ∈ cs, a.isAlphanum = true ∨ a = ' ') : FindsWord before (c :: cs) := by
  obtain ⟨w, rest, rfl, -, hw, hRest⟩ := run_cons hc cs
  obtain ⟨v, d, hRun⟩ : ∃ v d, c :: w = v ++ [d] :=
    ⟨_, _, (List.dropLast_concat_getLast (List.cons_ne_nil c w)).symm⟩
  have hText : c :: (w ++ rest) = v ++ [d] ++ rest := by rw [← hRun]; rfl
  have hSmall : smallWord.ends before (c :: (w ++ rest)) = [] := by
    rw [ends_smallWord_capital hc, ends_repeated_eq_nil hNext]
    rfl
  have hRestChars : ∀ a ∈ rest, a.isAlphanum = true ∨ a = ' ' := fun a ha =>
    hChars a (List.mem_append_right w ha)
  -- a small letter does not follow the first capital, so there is another one before it
  have hMore : rest.head?.any Char.isLower = true → v ≠ [] := by
    rintro hLower rfl
    obtain ⟨rfl, rfl⟩ : c = d ∧ w = [] := by simpa using hRun
    simp [hLower] at hNext
  rw [hRun] at hw
  have hFirst : (wordPattern.ends before (c :: (w ++ rest))).head? =
      some (if rest.head?.any Char.isLower then v.length else v.length + 1) := by
    rw [ends_wordPattern, hSmall, List.nil_append, List.head?_append, hText,
      head?_ends_capitalWord hw hRest hRestChars hMore, Option.some_or]
  cases hLower : rest.head?.any Char.isLower with
  | false =>
    refine ⟨v ++ [d], rest, hText, by simp, ?_, ?_⟩
    · rw [hFirst, hLower, List.length_append]
      rfl
    · rw [hText]
      exact runs_class (.inl rfl) (by simp) hw hRest (.inr hLower)
  | true =>
    refine ⟨v, d :: rest, by simpa using hText, hMore hLower, ?_, ?_⟩
    · rw [hFirst, hLower]
      rfl
    · rw [hText, List.append_assoc, List.singleton_append]
      exact runs_capitals (hMore hLower) (fun a ha => hw a (List.mem_append_left _ ha))
        (hw d (by simp)) hLower

/-- The first match at a letter or digit is the first of the runs. -/
theorem findsWord (hc : c.isAlphanum = true) (hChars : ∀ a ∈ cs, a.isAlphanum = true ∨ a = ' ') :
    FindsWord before (c :: cs) := by
  rcases class_spec hc with hCapital | hSmall | hDigit
  · cases hNext : cs.head?.any Char.isLower with
    | true => exact findsWord_capital hCapital.1 hNext
    | false => exact findsWord_capitals hCapital.1 hNext hChars
  · exact findsWord_lower hSmall
  · exact findsWord_digit hDigit

/-- The search finds the runs of a name with blanks. -/
theorem findFrom_wordPattern (hChars : ∀ a ∈ cs, a.isAlphanum = true ∨ a = ' ') :
    findFrom wordPattern before cs = runs startsWord cs := by
  induction hLength : cs.length using Nat.strong_induction_on generalizing before cs with
  | _ n ih =>
    subst hLength
    cases cs with
    | nil => exact findFrom_nil
    | cons c cs =>
      obtain ⟨hc, hcs⟩ := List.forall_mem_cons.mp hChars
      by_cases hWord : c.isAlphanum = true
      · obtain ⟨w, rest, hText, hSome, hFirst, hRuns⟩ : FindsWord before (c :: cs) :=
          findsWord hWord hcs
        have hFewer : rest.length < (c :: cs).length := by
          have := List.length_pos_of_ne_nil hSome
          rw [hText, List.length_append]
          omega
        have hRest : ∀ a ∈ rest, a.isAlphanum = true ∨ a = ' ' := fun a ha =>
          hChars a (hText ▸ List.mem_append_right _ ha)
        rw [hRuns, hText, findFrom_matched (hText ▸ hFirst) hSome, ih _ hFewer hRest rfl]
      · have hClass := not_class hWord
        have hNone : wordPattern.ends before (c :: cs) = [] := by
          simp [wordPattern, smallWord, capitalWord, hClass]
        rw [findFrom_passed hNone, runs_skip hWord, ih _ (by simp) hcs rfl]

end

/-- The search finds the words of a name. -/
theorem extracted_eq (name : List Char) : extracted name = words name := by
  have hSmall : ∀ c, (shown ' ' c).isLower = c.isLower := by
    intro c
    by_cases hc : c.isAlphanum = true
    · rw [shown_of_word hc]
    · rw [shown_of_other hc, (not_class hc).2.1]
      decide
  have hDivision : ∀ a b next, startsWord a b (next.map (shown ' ')) = startsWord a b next := by
    intro a b next
    cases next with
    | none => rfl
    | some d => simp [startsWord, startsSegment, hSmall]
  rw [extracted, apply_blank, findFrom_wordPattern fun c hc => of_mem_map_shown hc,
    runs_map_shown (by decide) hDivision]
  rfl

end EntityGraph.Naming
