import EntityGraph.Proofs.Segments
import EntityGraph.Proofs.Substitution
import Mathlib.Data.List.DropRight

/-!
# Snake case by substitutions

Underscores stand between the runs of a name when it has been marked and blanked, but there may be
several of them, and some at the ends.  The last two substitutions leave one between two runs and
none at the ends, which is how snake case is put together.

* `apply_squeeze`, `apply_trim`: what these substitutions do to a text;
* `linedRuns`, `rdropWhile_collapsed`: what they leave of a text of runs and underscores;
* `substituted_eq`: all substitutions together make the snake case of a name.
-/

namespace EntityGraph.Naming

open Pattern Substitution

/-! ## What is left of underscores -/

/-- A text with one underscore for several. -/
def collapsed : List Char → List Char
  | [] => []
  | c :: cs => if isLine c && cs.head?.any isLine then collapsed cs else c :: collapsed cs

section

variable {c : Char} {w cs rest : List Char} {before : Option Char}

/-- One underscore is left of several. -/
theorem collapsed_lines (hSome : w ≠ []) (hw : ∀ c ∈ w, isLine c = true)
    (hRest : rest.head?.any isLine = false) : collapsed (w ++ rest) = '_' :: collapsed rest := by
  induction w with
  | nil => exact absurd rfl hSome
  | cons c w ih =>
    obtain ⟨hc, hw⟩ := List.forall_mem_cons.mp hw
    cases w with
    | nil =>
      obtain rfl : c = '_' := of_decide_eq_true hc
      rw [List.singleton_append, collapsed, hRest, Bool.and_false, if_neg Bool.false_ne_true]
    | cons d w =>
      have hd := hw d List.mem_cons_self
      rw [List.cons_append, collapsed, if_pos (by simp [hc, hd]), ih (by simp) hw]

/-- One underscore alone is passed over. -/
theorem ways_squeeze_few (h : (isLine c && cs.head?.any isLine) = false) :
    ways squeeze.patterns before (c :: cs) = [] := by
  refine List.eq_nil_iff_forall_not_mem.mpr fun groups hWay => ?_
  obtain ⟨v, rest, _, hText, hTakes, -, -⟩ := mem_ways_cons.mp hWay
  obtain ⟨hLeast, hv⟩ := takes_repeated.mp hTakes
  match v with
  | a :: b :: v =>
    obtain ⟨rfl, rfl⟩ : c = a ∧ cs = b :: v ++ rest := List.cons.inj hText
    simp [hv] at h

/-- Several underscores are matched together. -/
theorem head?_ways_squeeze (hRun : cs.takeWhile isLine = w) (hLong : 2 ≤ w.length)
    (hText : cs = w ++ rest) : (ways squeeze.patterns before cs).head? = some [w] := by
  rw [squeeze, head?_ways_singleton, head?_ends_repeated hRun hLong, Option.map_some, hText,
    List.take_left]

theorem apply_squeeze (cs : List Char) : squeeze.apply cs = collapsed cs := by
  suffices h : ∀ before, replaceFrom squeeze.patterns squeeze.put before cs = collapsed cs from
    h none
  induction hLength : cs.length using Nat.strong_induction_on generalizing cs with
  | _ n ih =>
    subst hLength
    intro before
    cases cs with
    | nil => exact replaceFrom_nil
    | cons c cs =>
      cases hMany : isLine c && cs.head?.any isLine with
      | false =>
        rw [replaceFrom_passed (ways_squeeze_few hMany), ih _ (by simp) _ rfl, collapsed, hMany,
          if_neg Bool.false_ne_true]
      | true =>
        obtain ⟨hc, hNext⟩ := Bool.and_eq_true_iff.mp hMany
        obtain ⟨d, cs, rfl, hd⟩ := exists_head hNext
        obtain ⟨v, rest, rfl, hRun, hv, hRest⟩ := run_cons hd cs
        have hWhole : (c :: d :: (v ++ rest)).takeWhile isLine = c :: d :: v := by
          rw [List.takeWhile_cons_of_pos hc, hRun]
        have hFirst : (ways squeeze.patterns before (c :: d :: (v ++ rest))).head? =
            some [c :: d :: v] := head?_ways_squeeze hWhole (by simp) rfl
        rw [← List.cons_append, ← List.cons_append, replaceFrom_matched hFirst (by simp) (by simp),
          ih _ (by simp; omega) _ rfl,
          collapsed_lines (by simp) (List.forall_mem_cons.mpr ⟨hc, hv⟩) hRest]
        rfl

theorem rdropWhile_cons {α : Type} (p : α → Bool) (x : α) (xs : List α) :
    (x :: xs).rdropWhile p =
      if xs.rdropWhile p = [] then (if p x then [] else [x]) else x :: xs.rdropWhile p := by
  simp only [List.rdropWhile, List.reverse_cons, List.dropWhile_append, List.reverse_eq_nil_iff,
    List.isEmpty_iff]
  split
  · split <;> simp_all
  · simp

/-- Behind the first place only a text of underscores is trimmed. -/
theorem mem_ways_trim {b : Char} {groups : List (List Char)} (h : '\n' ∉ cs) (hSome : cs ≠ []) :
    groups ∈ ways trim.patterns (some b) cs ↔
      groups = [cs] ∧ ∀ a ∈ cs, isLine a = true := by
  simp only [trim, mem_ways_cons, mem_ways_nil, takes_either, takes_both, takes_start,
    takes_finish, takes_repeated]
  constructor
  · rintro ⟨w, rest, _, hText, hEither, rfl, rfl⟩
    rcases hEither with ⟨_, _, -, ⟨-, hNone⟩, -⟩ | ⟨u, v, rfl, ⟨-, hu⟩, rfl, hEnd⟩
    · cases hNone
    · obtain rfl : rest = [] := hEnd.resolve_right fun hBreak => h (by simp [hText, hBreak])
      rw [List.append_nil, List.append_nil] at hText
      exact ⟨by rw [hText, List.append_nil], hText ▸ hu⟩
  · rintro ⟨rfl, hLines⟩
    have hLeast : 1 ≤ cs.length := List.length_pos_of_ne_nil hSome
    refine ⟨cs, [], [], by simp, .inr ?_, rfl, rfl⟩
    exact ⟨cs, [], by simp, ⟨hLeast, hLines⟩, rfl, .inl rfl⟩

/-- Behind the first place only the underscores at the end are trimmed. -/
theorem replaceFrom_trim (b : Char) (h : '\n' ∉ cs) :
    replaceFrom trim.patterns trim.put (some b) cs = cs.rdropWhile isLine := by
  induction cs generalizing b with
  | nil => simp
  | cons c cs ih =>
    cases hWays : ways trim.patterns (some b) (c :: cs) with
    | nil =>
      have hText : ¬ ∀ a ∈ c :: cs, isLine a = true := by
        intro hLines
        have hWay : [c :: cs] ∈ ways trim.patterns (some b) (c :: cs) :=
          (mem_ways_trim h (by simp)).mpr ⟨rfl, hLines⟩
        rw [hWays] at hWay
        cases hWay
      rw [replaceFrom_passed hWays, ih c fun hMem => h (List.mem_cons_of_mem _ hMem),
        rdropWhile_cons]
      split
      · rename_i hRest
        have hLater := List.rdropWhile_eq_nil_iff.mp hRest
        have hFirst : ¬ isLine c = true := fun hc =>
          hText (List.forall_mem_cons.mpr ⟨hc, hLater⟩)
        rw [if_neg hFirst, hRest]
      · rfl
    | cons groups others =>
      have hWay : groups ∈ ways trim.patterns (some b) (c :: cs) := by simp [hWays]
      obtain ⟨rfl, hLines⟩ := (mem_ways_trim h (by simp)).mp hWay
      have hFirst : (ways trim.patterns (some b) (c :: cs ++ [])).head? = some [c :: cs] := by
        rw [List.append_nil, hWays]
        rfl
      rw [List.rdropWhile_eq_nil_iff.mpr hLines, ← List.append_nil (c :: cs),
        replaceFrom_matched hFirst (by simp) (by simp)]
      simp [trim]

theorem apply_trim (h : '\n' ∉ cs) :
    trim.apply cs = (cs.dropWhile isLine).rdropWhile isLine := by
  obtain ⟨w, rest, hAll, hRun, hDrop, hw, hRest⟩ := run_append isLine cs
  rw [hDrop]
  cases w with
  | nil =>
    obtain rfl : cs = rest := hAll
    cases cs with
    | nil => exact replaceFrom_nil
    | cons c cs =>
      have hFirst : isLine c = false := hRest
      have hWays : ways trim.patterns none (c :: cs) = [] := by
        simp [trim, hFirst]
      rw [Substitution.apply, replaceFrom_passed hWays,
        replaceFrom_trim c fun hMem => h (List.mem_cons_of_mem _ hMem), rdropWhile_cons, hFirst]
      split <;> simp_all
  | cons c w =>
    have hRest : '\n' ∉ rest := fun hMem => h (hAll ▸ List.mem_append_right _ hMem)
    have hLong : ((Pattern.repeated 1 isLine).ends none (c :: w ++ rest)).head? =
        some (c :: w).length := head?_ends_repeated (hAll ▸ hRun) (by simp)
    have hStart : (Pattern.both .start (.repeated 1 isLine)).ends none (c :: w ++ rest) =
        (Pattern.repeated 1 isLine).ends none (c :: w ++ rest) := by
      simp
    have hFirst : (ways trim.patterns none (c :: w ++ rest)).head? = some [c :: w] := by
      rw [trim, head?_ways_singleton, ends, hStart, List.head?_append, hLong]
      simp
    obtain ⟨b, hLatest⟩ : ∃ b, latest none (c :: w) = some b :=
      ⟨(c :: w).getLast (by simp), by simp [latest, List.getLast?_eq_some_getLast]⟩
    rw [hAll, Substitution.apply, replaceFrom_matched hFirst (by simp) (by simp), hLatest,
      replaceFrom_trim b hRest]
    rfl

theorem dropWhile_collapsed (cs : List Char) :
    (collapsed cs).dropWhile isLine = collapsed (cs.dropWhile isLine) := by
  have hKept : ∀ rest, rest.head?.any isLine = false →
      (collapsed rest).dropWhile isLine = collapsed rest := by
    intro rest hRest
    cases rest with
    | nil => rfl
    | cons c rest =>
      have hc : isLine c = false := hRest
      simp [collapsed, hc]
  obtain ⟨w, rest, hAll, -, hDrop, hw, hRest⟩ := run_append isLine cs
  rw [hDrop, hAll]
  cases w with
  | nil => exact hKept rest hRest
  | cons c w =>
    rw [collapsed_lines (by simp) hw hRest, List.dropWhile_cons_of_pos rfl, hKept rest hRest]

theorem mem_of_mem_collapsed (h : c ∈ collapsed cs) : c ∈ cs := by
  induction cs with
  | nil => exact h
  | cons d cs ih =>
    rw [collapsed] at h
    split at h
    · exact List.mem_cons_of_mem _ (ih h)
    · rcases List.mem_cons.mp h with rfl | h
      · exact List.mem_cons_self
      · exact List.mem_cons_of_mem _ (ih h)

end

/-! ## Runs between underscores -/

section

variable {c : Char} {cs : List Char}

theorem runs_dropLines (cs : List Char) :
    runs undivided (cs.dropWhile isLine) = runs undivided cs := by
  induction cs with
  | nil => rfl
  | cons c cs ih =>
    cases hc : isLine c with
    | false => rw [List.dropWhile_cons_of_neg (by simp [hc])]
    | true =>
      obtain rfl : c = '_' := of_decide_eq_true hc
      rw [List.dropWhile_cons_of_pos hc, ih, runs_skip (by decide)]

theorem joinable_runs (cs : List Char) : Joinable (runs undivided cs) := by
  intro w hw
  obtain ⟨hSome, hChars⟩ := runs_spec undivided cs w hw
  refine ⟨hSome, fun c hc hLine => ?_⟩
  have hWord := hChars c hc
  rw [hLine] at hWord
  cases hWord

theorem isLine_eq_false (h : c.isAlphanum = true) : isLine c = false := by
  refine decide_eq_false ?_
  rintro rfl
  cases h

theorem underscored_cons (c : Char) (w : List Char) (ws : List (List Char)) :
    underscored ((c :: w) :: ws) = c :: underscored (w :: ws) := by
  cases ws <;> rfl

theorem lower_underscored (ws : List (List Char)) :
    lower (underscored ws) = underscored (ws.map lower) := by
  fun_induction underscored ws with
  | case1 => rfl
  | case2 w => rfl
  | case3 w ws hMore ih =>
    obtain ⟨v, vs, rfl⟩ := List.exists_cons_of_ne_nil hMore
    calc lower (w ++ '_' :: underscored (v :: vs))
      _ = lower w ++ '_' :: lower (underscored (v :: vs)) := List.map_append
      _ = lower w ++ '_' :: underscored ((v :: vs).map lower) := by rw [ih]

theorem startsSegment_isAlphanum {a b : Char} {next : Option Char}
    (h : startsSegment a b next = true) : a.isAlphanum = true ∧ b.isAlphanum = true := by
  simp only [startsSegment, Bool.and_eq_true, Bool.or_eq_true] at h
  obtain ⟨hb, (ha | ha) | ⟨ha, -⟩⟩ := h
  · exact ⟨isAlphanum_of_isLower ha, isAlphanum_of_isUpper hb⟩
  · exact ⟨isAlphanum_of_isDigit ha, isAlphanum_of_isUpper hb⟩
  · exact ⟨isAlphanum_of_isUpper ha, isAlphanum_of_isUpper hb⟩

/-- Runs put together, with an underscore before them if a text starts with one. -/
def linedRuns (cs : List Char) : List Char :=
  if cs.head?.any isLine && !(runs undivided cs).isEmpty
  then '_' :: underscored (runs undivided cs) else underscored (runs undivided cs)

theorem linedRuns_of_not (h : cs.head?.any isLine = false) :
    linedRuns cs = underscored (runs undivided cs) := by
  rw [linedRuns, h, Bool.false_and, if_neg Bool.false_ne_true]

theorem linedRuns_line (cs : List Char) : linedRuns ('_' :: cs) =
    if runs undivided cs = [] then [] else '_' :: underscored (runs undivided cs) := by
  have hSkip : runs undivided ('_' :: cs) = runs undivided cs := runs_skip (by decide)
  rw [linedRuns, hSkip]
  cases runs undivided cs <;> rfl

theorem linedRuns_word (hc : c.isAlphanum = true)
    (hNext : ∀ d ∈ cs.head?, d.isAlphanum = true ∨ isLine d = true) :
    linedRuns (c :: cs) = c :: linedRuns cs := by
  have hFirst : (c :: cs).head?.any isLine = false := isLine_eq_false hc
  rw [linedRuns_of_not hFirst]
  cases cs with
  | nil => rw [runs_singleton hc]; rfl
  | cons d more =>
    rcases hNext d rfl with hd | hd
    · obtain ⟨run, others, hRuns⟩ := runs_start undivided hd more
      have hLater : (d :: more).head?.any isLine = false := isLine_eq_false hd
      rw [linedRuns_of_not hLater, runs_cons hc hd, hRuns]
      exact underscored_cons c (d :: run) others
    · obtain rfl : d = '_' := of_decide_eq_true hd
      rw [linedRuns_line, runs_divided hc (by decide), runs_skip (by decide)]
      cases runs undivided more <;> rfl

/-- What is left of a text of word characters and underscores when several underscores are made one
and those at the end are dropped. -/
theorem rdropWhile_collapsed (h : ∀ c ∈ cs, c.isAlphanum = true ∨ isLine c = true) :
    (collapsed cs).rdropWhile isLine = linedRuns cs := by
  induction cs with
  | nil => rfl
  | cons c cs ih =>
    obtain ⟨hc, hcs⟩ := List.forall_mem_cons.mp h
    specialize ih hcs
    rcases hc with hWord | hLine
    · have hNot : isLine c = false := isLine_eq_false hWord
      rw [linedRuns_word hWord fun d hd => hcs d (List.mem_of_mem_head? hd), ← ih, collapsed, hNot,
        Bool.false_and, if_neg Bool.false_ne_true, rdropWhile_cons, hNot]
      split <;> simp_all
    · obtain rfl : c = '_' := of_decide_eq_true hLine
      rw [collapsed, hLine, Bool.true_and]
      cases hNext : cs.head?.any isLine with
      | true =>
        obtain ⟨d, more, rfl, hd⟩ := exists_head hNext
        obtain rfl : d = '_' := of_decide_eq_true hd
        rw [if_pos rfl, ih, linedRuns_line, linedRuns_line, runs_skip (by decide)]
      | false =>
        have hEmpty := underscored_eq_nil (joinable_runs cs)
        rw [if_neg Bool.false_ne_true, rdropWhile_cons, ih, linedRuns_of_not hNext, hLine,
          linedRuns_line]
        simp only [hEmpty, if_true]

end

/-- The substitutions make the snake case of a name. -/
theorem substituted_eq (name : List Char) : substituted name = underscored (segments name) := by
  let text := (marked startsSegment name).map (shown '_')
  have hChars : ∀ c ∈ text, c.isAlphanum = true ∨ isLine c = true := fun c hc =>
    (of_mem_map_shown hc).imp_right decide_eq_true
  have hBreak : '\n' ∉ collapsed text := fun hMem => by
    have hChar := hChars '\n' (mem_of_mem_collapsed hMem)
    revert hChar
    decide
  have hStart : (text.dropWhile isLine).head?.any isLine = false := by
    obtain ⟨w, rest, -, -, hDrop, -, hRest⟩ := run_append isLine text
    rw [hDrop, hRest]
  have hRuns : runs undivided (text.dropWhile isLine) = runs startsSegment name := by
    rw [runs_dropLines, runs_map_shown (by decide) fun _ _ _ => rfl,
      runs_marked startsSegment_isAlphanum]
  have hInner : ∀ c ∈ text.dropWhile isLine, c.isAlphanum = true ∨ isLine c = true :=
    fun c hc => hChars c ((List.dropWhile_suffix isLine).subset hc)
  rw [substituted, apply_divideCapitals, apply_divideSmall, marked_marked, apply_blank,
    apply_squeeze, apply_trim hBreak, dropWhile_collapsed, rdropWhile_collapsed hInner,
    linedRuns_of_not hStart, hRuns, lower_underscored]
  rfl

end EntityGraph.Naming
