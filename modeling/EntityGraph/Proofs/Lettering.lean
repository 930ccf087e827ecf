import EntityGraph.Proofs.Extraction
import EntityGraph.Proofs.Underscores

/-!
# Letters of a name in every casing

No casing loses, adds or moves a letter or digit of a name.  What holds of the runs holds of the words
and of the segments, since these differ from the runs in letter case only.  Snake case has no capitals,
so nothing divides its runs again, and a name in snake case stays as it is.

* `letters`: the letters and digits of a name;
* `lower_pascalCase`, `lower_camelCase`, `filter_snakeCase`: they are left in each casing;
* `IsSnake`: runs of small letters and digits with single underscores between them;
* `segments_underscored`: the segments of a name in snake case;
* `casings_spec`: all three casings, and the two ways in which names are searched.
-/

namespace EntityGraph.Naming

/-- The letters and digits of a name in their order, the letters made small. -/
def letters (name : String) : List Char := lower (name.toList.filter isWordChar)

/-! ## Words -/

theorem flatten_map_lower (division : Division) (name : String) :
    ((runs division name.toList).map lower).flatten = letters name := by
  rw [letters, ← flatten_runs division]
  exact List.map_flatten.symm

theorem lower_lower {w : List Char} (hw : ∀ c ∈ w, c.isAlphanum = true) :
    lower (lower w) = lower w := by
  rw [lower, lower, List.map_map]
  exact List.map_congr_left fun d hd => toLower_toLower (hw d hd)

/-- A capital at the start is undone by small letters. -/
theorem lower_capitalize {w : List Char} (hw : ∀ c ∈ w, c.isAlphanum = true) :
    lower (capitalize (lower w)) = lower w := by
  cases w with
  | nil => rfl
  | cons c w =>
    obtain ⟨hc, hw⟩ := List.forall_mem_cons.mp hw
    change c.toLower.toUpper.toLower :: lower (lower w) = c.toLower :: lower w
    rw [toLower_toUpper hc, lower_lower hw]

theorem lower_flatten_capitalize {ws : List (List Char)}
    (hw : ∀ w ∈ ws, ∀ c ∈ w, c.isAlphanum = true) :
    lower (((ws.map lower).map capitalize).flatten) = (ws.map lower).flatten := by
  rw [lower, List.map_flatten, List.map_map, List.map_map]
  exact congrArg List.flatten (List.map_congr_left fun w hMem => lower_capitalize (hw w hMem))

theorem lower_pascalCase (name : String) : lower (pascalCase name).toList = letters name := by
  rw [pascalCase, String.toList_ofList, pascalChars, words,
    lower_flatten_capitalize fun w hw => (runs_spec _ _ w hw).2, flatten_map_lower]

theorem lower_camelCase (name : String) : lower (camelCase name).toList = letters name := by
  have hWords := runs_spec startsWord name.toList
  rw [camelCase, String.toList_ofList, camelChars, words, ← flatten_map_lower startsWord]
  cases hRuns : runs startsWord name.toList with
  | nil => rfl
  | cons w ws =>
    rw [hRuns] at hWords
    obtain ⟨⟨-, hw⟩, hws⟩ := List.forall_mem_cons.mp hWords
    calc lower (lower w ++ ((ws.map lower).map capitalize).flatten)
      _ = lower (lower w) ++ lower ((ws.map lower).map capitalize).flatten := List.map_append
      _ = lower w ++ (ws.map lower).flatten := by
        rw [lower_lower hw, lower_flatten_capitalize fun v hv => (hws v hv).2]

/-! ## Segments -/

theorem filter_underscored {ws : List (List Char)} (h : Joinable ws) :
    (underscored ws).filter (· ≠ '_') = ws.flatten := by
  have hEach : ∀ w ∈ ws, w.filter (· ≠ '_') = w := fun w hw =>
    List.filter_eq_self.mpr fun c hc => decide_eq_true ((h w hw).2 c hc)
  fun_induction underscored ws with
  | case1 => rfl
  | case2 w => simpa using hEach w (.head _)
  | case3 w ws hMore ih =>
    obtain ⟨-, hWords⟩ := List.forall_mem_cons.mp h
    obtain ⟨hFirst, hEach⟩ := List.forall_mem_cons.mp hEach
    rw [List.filter_append, hFirst, List.filter_cons_of_neg (by simp), ih hWords hEach]
    rfl

theorem filter_snakeCase (name : String) :
    (snakeCase name).toList.filter (· ≠ '_') = letters name := by
  rw [snakeCase, String.toList_ofList, filter_underscored (joinable_segments _), segments,
    flatten_map_lower]

/-- A run of small letters and digits. -/
def IsSmall (w : List Char) : Prop := w ≠ [] ∧ ∀ c ∈ w, c.isLower = true ∨ c.isDigit = true

/-- Runs of small letters and digits with single underscores between them. -/
def IsSnake (cs : List Char) : Prop := ∃ ws, cs = ['_'].intercalate ws ∧ ∀ w ∈ ws, IsSmall w

theorem underscored_eq_intercalate (ws : List (List Char)) :
    underscored ws = ['_'].intercalate ws := by
  fun_induction underscored ws with
  | case1 => rfl
  | case2 w => simp
  | case3 w ws hMore ih =>
    obtain ⟨v, vs, rfl⟩ := List.exists_cons_of_ne_nil hMore
    rw [ih, List.intercalate_cons_cons]
    simp

/-- A letter or digit made small is a small letter or a digit. -/
theorem isSmall_toLower {c : Char} (h : c.isAlphanum = true) :
    c.toLower.isLower = true ∨ c.toLower.isDigit = true :=
  alphanum_forall (P := fun c => c.toLower.isLower = true ∨ c.toLower.isDigit = true)
    (by decide) h

theorem isSmall_segments (name : List Char) : ∀ w ∈ segments name, IsSmall w := by
  intro w hw
  obtain ⟨run, hRun, rfl⟩ := List.mem_map.mp hw
  obtain ⟨hSome, hChars⟩ := runs_spec startsSegment name run hRun
  refine ⟨fun hNil => hSome (List.map_eq_nil_iff.mp hNil), fun c hc => ?_⟩
  obtain ⟨d, hd, rfl⟩ := List.mem_map.mp hc
  exact isSmall_toLower (hChars d hd)

theorem IsSmall.isAlphanum {w : List Char} (h : IsSmall w) : ∀ c ∈ w, c.isAlphanum = true := by
  intro c hc
  rcases h.2 c hc with hLower | hDigit
  · exact isAlphanum_of_isLower hLower
  · exact isAlphanum_of_isDigit hDigit

theorem IsSmall.not_isUpper {w : List Char} (h : IsSmall w) : ∀ c ∈ w, c.isUpper = false := by
  intro c hc
  rcases class_spec (h.isAlphanum c hc) with hClass | hClass | hClass
  · simpa [hClass] using h.2 c hc
  · exact hClass.1
  · exact hClass.1

/-- Nothing but underscores divides runs without capitals. -/
theorem runs_underscored {ws : List (List Char)} (h : ∀ w ∈ ws, IsSmall w) :
    runs startsSegment (underscored ws) = ws := by
  have hFirst : ∀ w rest, IsSmall w → rest.head?.any Char.isAlphanum = false →
      runs startsSegment (w ++ rest) = w :: runs startsSegment rest := by
    intro w rest hw hRest
    refine runs_whole hw.1 hw.isAlphanum ?_ ?_
    · rintro u c d v rfl
      have hd : d.isUpper = false := hw.not_isUpper d (by simp)
      simp [startsSegment, hd]
    · rintro c d more - rfl hd
      simp [hd] at hRest
  fun_induction underscored ws with
  | case1 => rfl
  | case2 w => simpa [runs] using hFirst w [] (h w (.head _)) rfl
  | case3 w ws hMore ih =>
    obtain ⟨hw, hws⟩ := List.forall_mem_cons.mp h
    rw [hFirst w _ hw rfl, runs_skip (by decide), ih hws]

theorem snakeCase_snakeCase (name : String) : snakeCase (snakeCase name) = snakeCase name := by
  have hAgain : segments (underscored (segments name.toList)) = segments name.toList := by
    rw [segments, runs_underscored (isSmall_segments _), segments, List.map_map]
    exact List.map_congr_left fun run hRun => lower_lower (runs_spec _ _ run hRun).2
  rw [snakeCase, snakeCase, String.toList_ofList, hAgain]

/-- The words that a search finds in a name, and its snake case, Pascal case and camel case, hold
the letters and digits of the name in their order and no others.  Snake case, which is what the
substitutions make of the name, consists of runs of small letters and digits with single underscores
between them, and a name in snake case is left as it is. -/
theorem casings_spec (name : String) :
    (words name.toList = extracted name.toList ∧ (words name.toList).flatten = letters name) ∧
    (snakeCase name = String.ofList (substituted name.toList) ∧
      (snakeCase name).toList.filter (· ≠ '_') = letters name) ∧
    lower (pascalCase name).toList = letters name ∧
    lower (camelCase name).toList = letters name ∧
    IsSnake (snakeCase name).toList ∧ snakeCase (snakeCase name) = snakeCase name := by
  refine ⟨⟨(extracted_eq _).symm, flatten_map_lower _ _⟩, ⟨?_, filter_snakeCase name⟩,
    lower_pascalCase name, lower_camelCase name, ⟨segments name.toList, ?_, isSmall_segments _⟩,
    snakeCase_snakeCase name⟩
  · rw [substituted_eq]
    rfl
  · rw [snakeCase, String.toList_ofList, underscored_eq_intercalate]

end EntityGraph.Naming
