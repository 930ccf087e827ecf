import EntityGraph.Naming
import EntityGraph.Proofs.Casing

/-!
# Names with the same words

Pascal case forgets how a name was written, but not its words: a capital starts a word, and so does
a change between letters and digits.  Two names of letters and digits have the same Pascal case
exactly if they have the same words.  A word at the end of such a name stays a word of its own, so
the names of the classes are in the same position.

* `words_cons`, `pascalChars_cons`: the words of a name and its Pascal case, character by character;
* `words_eq_of_pascalChars_eq`: Pascal case tells the words;
* `SameWords`: two names with the same words, which differ in the case of their letters only;
* `pascalChars_append`: a word at the end of a name;
* `resolverClass_eq_iff`, `serviceClass_eq_iff`: which names lead to the same classes.
-/

namespace EntityGraph.Naming

/-! ## Character by character -/

section

variable {division : Division} {c d : Char} {more : List Char}

/-- The first run of a name that starts with a letter or a digit starts with it, too. -/
theorem runs_start (division : Division) (hc : c.isAlphanum = true) (rest : List Char) :
    ∃ run others, runs division (c :: rest) = (c :: run) :: others := by
  have hWord : isWordChar c = true := hc
  cases rest with
  | nil => exact ⟨[], [], by simp [runs, hWord]⟩
  | cons d more =>
    rw [runs, if_pos hWord]
    split
    · split
      · exact ⟨_, _, rfl⟩
      · exact ⟨[], [], rfl⟩
    · exact ⟨[], _, rfl⟩

theorem runs_cons (hc : c.isAlphanum = true) (hd : d.isAlphanum = true) :
    runs division (c :: d :: more) =
      if division c d more.head? then [c] :: runs division (d :: more)
      else (runs division (d :: more)).modifyHead (c :: ·) := by
  have hWord : isWordChar c = true := hc
  have hWord' : isWordChar d = true := hd
  obtain ⟨run, others, hRuns⟩ := runs_start division hd more
  rw [runs, if_pos hWord, hWord', hRuns]
  cases division c d more.head? <;> rfl

theorem runs_singleton (hc : c.isAlphanum = true) : runs division [c] = [[c]] := by
  have hWord : isWordChar c = true := hc
  simp [runs, hWord]

/-- A character that is no letter and no digit is not in any run. -/
theorem runs_skip (hc : ¬ c.isAlphanum = true) : runs division (c :: more) = runs division more := by
  have hWord : ¬ isWordChar c = true := hc
  simp [runs, hWord]

/-- Such a character ends the run before it. -/
theorem runs_divided (hc : c.isAlphanum = true) (hd : ¬ d.isAlphanum = true) :
    runs division (c :: d :: more) = [c] :: runs division (d :: more) := by
  have hWord : isWordChar c = true := hc
  have hWord' : ¬ isWordChar d = true := hd
  rw [runs, if_pos hWord]
  simp [hWord']

theorem words_cons (hc : c.isAlphanum = true) (hd : d.isAlphanum = true) :
    words (c :: d :: more) =
      if startsWord c d more.head? then [c.toLower] :: words (d :: more)
      else (words (d :: more)).modifyHead (c.toLower :: ·) := by
  obtain ⟨run, others, hRuns⟩ := runs_start startsWord hd more
  rw [words, words, runs_cons hc hd, hRuns]
  cases startsWord c d more.head? <;> rfl

theorem pascalChars_start (hc : c.isAlphanum = true) (rest : List Char) :
    ∃ others, pascalChars (c :: rest) = c.toLower.toUpper :: others := by
  obtain ⟨run, others, hRuns⟩ := runs_start startsWord hc rest
  exact ⟨_, by rw [pascalChars, words, hRuns]; rfl⟩

/-- The second character keeps its capital if it starts a word, and what comes after is the same in
both cases. -/
theorem pascalChars_cons (hc : c.isAlphanum = true) (hd : d.isAlphanum = true) (more : List Char) :
    ∃ others, pascalChars (d :: more) = d.toLower.toUpper :: others ∧
      pascalChars (c :: d :: more) = c.toLower.toUpper ::
        (if startsWord c d more.head? then d.toLower.toUpper else d.toLower) :: others := by
  obtain ⟨run, others, hRuns⟩ := runs_start startsWord hd more
  refine ⟨lower run ++ ((others.map lower).map capitalize).flatten, ?_, ?_⟩
  · rw [pascalChars, words, hRuns]
    rfl
  · rw [pascalChars, words_cons hc hd, words, hRuns]
    cases startsWord c d more.head? <;> rfl

end

/-! ## Letter cases -/

section

variable {c d : Char} {next : Option Char}

theorem toLower_toLower (h : c.isAlphanum = true) : c.toLower.toLower = c.toLower :=
  alphanum_forall (P := fun c => c.toLower.toLower = c.toLower) (by decide) h

theorem toLower_toUpper (h : c.isAlphanum = true) : c.toLower.toUpper.toLower = c.toLower :=
  alphanum_forall (P := fun c => c.toLower.toUpper.toLower = c.toLower) (by decide) h

theorem isDigit_toLower (h : c.isAlphanum = true) : c.toLower.isDigit = c.isDigit :=
  alphanum_forall (P := fun c => c.toLower.isDigit = c.isDigit) (by decide) h

/-- What has no capital is a digit. -/
theorem isDigit_of_toUpper_eq (h : c.isAlphanum = true) (hSame : c.toLower.toUpper = c.toLower) :
    c.isDigit = true :=
  alphanum_forall (P := fun c => c.toLower.toUpper = c.toLower → c.isDigit = true)
    (by decide) h hSame

/-- A digit starts a word unless a digit comes before it. -/
theorem startsWord_digit (hDigit : d.isDigit = true) : startsWord c d next = !c.isDigit := by
  have hd : d.isAlphanum = true := by simp [Char.isAlphanum, hDigit]
  have hUpper : d.isUpper = false :=
    alphanum_forall (P := fun c => c.isDigit = true → c.isUpper = false) (by decide)
      hd hDigit
  simp [startsWord, startsSegment, hDigit, hUpper]

/-- A character as it stands in Pascal case. -/
def casedAs (starts : Bool) (c : Char) : Char := if starts then c.toLower.toUpper else c.toLower

theorem toLower_casedAs (h : c.isAlphanum = true) (starts : Bool) :
    (casedAs starts c).toLower = c.toLower := by
  cases starts with
  | false => exact toLower_toLower h
  | true => exact toLower_toUpper h

/-- The two cases of a letter differ. -/
theorem casedAs_inj (h : c.isAlphanum = true) (hLetter : ¬ c.isDigit = true) {starts starts' : Bool}
    (hSame : casedAs starts c = casedAs starts' c) : starts = starts' := by
  have hCapital : c.toLower.toUpper ≠ c.toLower := fun hEq => hLetter (isDigit_of_toUpper_eq h hEq)
  cases starts with
  | false =>
    cases starts' with
    | false => rfl
    | true => exact absurd hSame.symm hCapital
  | true =>
    cases starts' with
    | false => exact absurd hSame hCapital
    | true => rfl

end

/-- The case of a character in Pascal case tells whether a word starts with it. -/
theorem startsWord_eq_of_casedAs {c d c' d' : Char} {next next' : Option Char}
    (hc : c.isAlphanum = true) (hd : d.isAlphanum = true)
    (hc' : c'.isAlphanum = true) (hd' : d'.isAlphanum = true) (hBefore : c.toLower = c'.toLower)
    (hCase : casedAs (startsWord c d next) d = casedAs (startsWord c' d' next') d') :
    startsWord c d next = startsWord c' d' next' := by
  have hLower : d.toLower = d'.toLower := by
    rw [← toLower_casedAs hd, hCase, toLower_casedAs hd']
  by_cases hDigit : d.isDigit = true
  · have hDigit' : d'.isDigit = true := by
      rw [← isDigit_toLower hd', ← hLower, isDigit_toLower hd, hDigit]
    rw [startsWord_digit hDigit, startsWord_digit hDigit', ← isDigit_toLower hc, hBefore,
      isDigit_toLower hc']
  · refine casedAs_inj hd hDigit ?_
    rw [hCase, casedAs, casedAs, hLower]

/-! ## Words and Pascal case -/

section

variable {a b : List Char}

/-- The words of a name of letters and digits hold all its characters. -/
theorem flatten_words (ha : ∀ c ∈ a, c.isAlphanum = true) : (words a).flatten = lower a := by
  have hAll : a.filter isWordChar = a := List.filter_eq_self.mpr ha
  have hRuns := congrArg lower (flatten_runs startsWord a)
  rwa [hAll, lower, List.map_flatten] at hRuns

theorem length_pascalChars (ha : ∀ c ∈ a, c.isAlphanum = true) :
    (pascalChars a).length = a.length := by
  have hEach : ∀ w : List Char, (capitalize w).length = w.length := fun w => by cases w <;> rfl
  have hAll := congrArg List.length (flatten_words ha)
  rw [lower, List.length_map, List.length_flatten] at hAll
  rw [← hAll, pascalChars, List.length_flatten, List.map_map]
  exact congrArg List.sum (List.map_congr_left fun w _ => hEach w)

/-- Pascal case tells the words of a name of letters and digits. -/
theorem words_eq_of_pascalChars_eq (ha : ∀ c ∈ a, c.isAlphanum = true)
    (hb : ∀ c ∈ b, c.isAlphanum = true) (h : pascalChars a = pascalChars b) :
    words a = words b := by
  have hLength : a.length = b.length := by
    rw [← length_pascalChars ha, h, length_pascalChars hb]
  induction a generalizing b with
  | nil => rw [List.length_eq_zero_iff.mp hLength.symm]
  | cons c rest ih =>
    obtain ⟨c', rest', rfl⟩ := List.exists_cons_of_length_eq_add_one hLength.symm
    have hLength := Nat.succ.inj hLength
    obtain ⟨hc, hRest⟩ := List.forall_mem_cons.mp ha
    obtain ⟨hc', hRest'⟩ := List.forall_mem_cons.mp hb
    have hFirst : c.toLower = c'.toLower := by
      obtain ⟨others, hStart⟩ := pascalChars_start hc rest
      obtain ⟨others', hStart'⟩ := pascalChars_start hc' rest'
      rw [hStart, hStart'] at h
      rw [← toLower_toUpper hc, (List.cons.inj h).1, toLower_toUpper hc']
    cases rest with
    | nil =>
      obtain rfl := List.length_eq_zero_iff.mp hLength.symm
      simp [words, runs, isWordChar, hc, hc', lower, hFirst]
    | cons d more =>
      obtain ⟨d', more', rfl⟩ := List.exists_cons_of_length_eq_add_one hLength.symm
      have hd := (List.forall_mem_cons.mp hRest).1
      have hd' := (List.forall_mem_cons.mp hRest').1
      obtain ⟨others, hTail, hAll⟩ := pascalChars_cons hc hd more
      obtain ⟨others', hTail', hAll'⟩ := pascalChars_cons hc' hd' more'
      rw [hAll, hAll'] at h
      obtain ⟨hCase, rfl⟩ := List.cons.inj (List.cons.inj h).2
      have hStarts := startsWord_eq_of_casedAs hc hd hc' hd' hFirst hCase
      have hSecond : d.toLower = d'.toLower := by
        rw [← toLower_casedAs hd, ← toLower_casedAs hd']
        exact congrArg Char.toLower hCase
      rw [words_cons hc hd, words_cons hc' hd', hStarts, hFirst,
        ih hRest hRest' (by rw [hTail, hTail', hSecond]) hLength]

theorem pascalChars_eq_iff (ha : ∀ c ∈ a, c.isAlphanum = true) (hb : ∀ c ∈ b, c.isAlphanum = true) :
    pascalChars a = pascalChars b ↔ words a = words b :=
  ⟨words_eq_of_pascalChars_eq ha hb, fun h => by rw [pascalChars, pascalChars, h]⟩

/-! ## A word at the end -/

/-- A capital with a small letter after it starts a segment. -/
theorem startsSegment_capital {c d e : Char} (hc : c.isAlphanum = true) (hd : d.isUpper = true)
    (he : e.isLower = true) : startsSegment c d (some e) = true := by
  have hClass : (c.isLower || c.isDigit || c.isUpper) = true :=
    alphanum_forall (P := fun c => (c.isLower || c.isDigit || c.isUpper) = true)
      (by decide) hc
  simp [startsSegment, hd, he, hClass]

/-- A division that starts a run with every capital that a small letter follows, and does not look at
what follows otherwise. -/
structure Division.StartsCapitals (division : Division) : Prop where
  capital : ∀ {c d e : Char}, c.isAlphanum = true → d.isUpper = true → e.isLower = true →
    division c d (some e) = true
  before : ∀ {c d e : Char}, e.isLower = false → division c d (some e) = division c d none

theorem startsSegment_capitals : Division.StartsCapitals startsSegment where
  capital := startsSegment_capital
  before he := by simp [startsSegment, he]

theorem startsWord_capitals : Division.StartsCapitals startsWord where
  capital hc hd he := by simp [startsWord, startsSegment_capital hc hd he]
  before he := by simp [startsWord, startsSegment, he]

/-- A run with a capital at the end of a name. -/
theorem runs_append {division : Division} (hDivision : division.StartsCapitals) (a : List Char)
    {d e : Char} (hd : d.isUpper = true) (hSmall : d.isLower = false) (he : e.isLower = true)
    (rest : List Char) :
    runs division (a ++ d :: e :: rest) = runs division a ++ runs division (d :: e :: rest) := by
  have hd' : d.isAlphanum = true := by
    change (d.isUpper || d.isLower || d.isDigit) = true
    rw [hd]
    rfl
  induction a with
  | nil => rfl
  | cons c more ih =>
    by_cases hc : c.isAlphanum = true
    · cases more with
      | nil =>
        rw [List.singleton_append, runs_cons hc hd', List.head?_cons, hDivision.capital hc hd he,
          runs_singleton hc]
        rfl
      | cons c' more =>
        rw [List.cons_append] at ih
        rw [List.cons_append, List.cons_append]
        by_cases hc' : c'.isAlphanum = true
        · have hNext : division c c' (more ++ d :: e :: rest).head? = division c c' more.head? := by
            cases more with
            | nil => exact hDivision.before hSmall
            | cons _ _ => rfl
          rw [runs_cons hc hc', runs_cons hc hc', hNext, ih]
          obtain ⟨run, others, hRuns⟩ := runs_start division hc' more
          rw [hRuns]
          cases division c c' more.head? <;> rfl
        · rw [runs_divided hc hc', runs_divided hc hc', ih]
          rfl
    · rw [List.cons_append, runs_skip hc, runs_skip hc, ih]

/-- A word with a capital at the end of a name stays a word of its own. -/
theorem pascalChars_append (a : List Char) {d e : Char} (hd : d.isUpper = true)
    (hSmall : d.isLower = false) (he : e.isLower = true) (rest : List Char) :
    pascalChars (a ++ d :: e :: rest) = pascalChars a ++ pascalChars (d :: e :: rest) := by
  simp only [pascalChars, words, runs_append startsWord_capitals a hd hSmall he, List.map_append,
    List.flatten_append]

end

/-! ## Classes -/

/-- A name of letters and digits. -/
def IsPlain (name : String) : Prop := ∀ c ∈ name.toList, c.isAlphanum = true

/-- Two names that consist of the same words. -/
def SameWords (a b : String) : Prop := words a.toList = words b.toList

instance (a b : String) : Decidable (SameWords a b) := inferInstanceAs (Decidable (_ = _))

section

variable {a b : String}

/-- Names with the same words differ in the case of their letters only. -/
theorem SameWords.lower_eq (ha : IsPlain a) (hb : IsPlain b) (h : SameWords a b) :
    lower a.toList = lower b.toList := by
  rw [← flatten_words ha, ← flatten_words hb, h]

/-- Names that end in a common word have the same Pascal case if they have the same words before
it. -/
theorem pascalCase_append_eq_iff (ha : IsPlain a) (hb : IsPlain b) (word : String) {d e : Char}
    {rest : List Char} (hWord : word.toList = d :: e :: rest) (hd : d.isUpper = true)
    (hSmall : d.isLower = false) (he : e.isLower = true) :
    pascalCase (a ++ word) = pascalCase (b ++ word) ↔ SameWords a b := by
  have hAppend : ∀ name : String, (pascalCase (name ++ word)).toList =
      pascalChars name.toList ++ pascalChars word.toList := by
    intro name
    rw [pascalCase, String.toList_ofList, String.toList_append, hWord,
      pascalChars_append _ hd hSmall he]
  rw [← String.toList_inj, hAppend, hAppend, List.append_left_inj]
  exact pascalChars_eq_iff ha hb

theorem resolverClass_eq_iff (ha : IsPlain a) (hb : IsPlain b) :
    resolverClass a = resolverClass b ↔ SameWords a b :=
  pascalCase_append_eq_iff ha hb "Resolver" rfl (by decide) (by decide) (by decide)

theorem serviceClass_eq_iff (ha : IsPlain a) (hb : IsPlain b) :
    serviceClass a = serviceClass b ↔ SameWords a b :=
  pascalCase_append_eq_iff ha hb "Service" rfl (by decide) (by decide) (by decide)

end

end EntityGraph.Naming
