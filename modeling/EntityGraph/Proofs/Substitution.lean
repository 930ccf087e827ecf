import EntityGraph.Proofs.Pattern
import EntityGraph.Proofs.Words

/-!
# Substitutions in names

A name is brought into snake case by five substitutions, each of them a search through the whole
text.  Two put underscores where a segment starts, the next turns everything else than letters and
digits into underscores, and the last two leave one underscore of several and none at the ends.  The
first three are the subject here: what each of them does to any text, and that the runs of the name
can still be found in it.

* `Substitution`, `substituted`: the substitutions, and a name after all of them;
* `marked`: a text with underscores where a division divides it, and `replaceFrom_eq_marked`: which
  patterns put them there;
* `apply_divideCapitals`, `apply_divideSmall`, `marked_marked`: the two marks of a segment;
* `apply_blank`: the same character for everything else than letters and digits;
* `runs_marked`, `runs_map_shown`: the runs are left.
-/

namespace EntityGraph.Naming

open Pattern

/-- Patterns to be replaced, and what is put for their groups. -/
structure Substitution where
  patterns : List Pattern
  put : List (List Char) → List Char

namespace Substitution

def apply (s : Substitution) (cs : List Char) : List Char :=
  replaceFrom s.patterns s.put none cs

def isLine (c : Char) : Bool := c = '_'

/-- A capital with a small letter behind it. -/
def capitalStart : Pattern := .both (.one Char.isUpper) (.one Char.isLower)

/-- An underscore before the last capital of several if a small letter follows it. -/
def divideCapitals : Substitution where
  patterns := [.repeated 1 Char.isUpper, capitalStart]
  put := ['_'].intercalate

/-- An underscore before a capital that follows a small letter or a digit. -/
def divideSmall : Substitution where
  patterns := [.one fun c => c.isLower || c.isDigit, .one Char.isUpper]
  put := ['_'].intercalate

/-- The same character for everything else than letters and digits. -/
def blank (c : Char) : Substitution where
  patterns := [.one fun c => !isWordChar c]
  put := fun _ => [c]

/-- One underscore for several. -/
def squeeze : Substitution where
  patterns := [.repeated 2 isLine]
  put := fun _ => ['_']

/-- No underscores at the ends. -/
def trim : Substitution where
  patterns := [.either (.both .start (.repeated 1 isLine)) (.both (.repeated 1 isLine) .finish)]
  put := fun _ => []

end Substitution

open Substitution

/-- A name after the substitutions, in small letters. -/
def substituted (name : List Char) : List Char :=
  lower (trim.apply (squeeze.apply ((blank '_').apply
    (divideSmall.apply (divideCapitals.apply name)))))

/-! ## Marks -/

/-- A text with an underscore wherever a division divides it. -/
def marked (division : Division) : List Char → List Char
  | [] => []
  | [c] => [c]
  | c :: d :: more =>
    if division c d more.head? then c :: '_' :: marked division (d :: more)
    else c :: marked division (d :: more)

section

variable {division : Division} {c d : Char} {more rest : List Char}

theorem marked_cons (h : ∀ d more, rest = d :: more → division c d more.head? = false) :
    marked division (c :: rest) = c :: marked division rest := by
  cases rest with
  | nil => rfl
  | cons d more => rw [marked, if_neg (by simp [h d more rfl])]

theorem marked_divided (h : division c d more.head? = true) :
    marked division (c :: d :: more) = c :: '_' :: marked division (d :: more) := by
  rw [marked, if_pos h]

/-- Patterns that match around every place of a division, and nowhere else, put the marks of the
division. -/
theorem replaceFrom_eq_marked {ps : List Pattern}
    (hFound : ∀ before cs groups, groups ∈ ways ps before cs → ∃ u v rest, groups = [u, v] ∧
      u ≠ [] ∧ cs = u ++ v ++ rest ∧
        marked division cs = u ++ '_' :: (v ++ marked division rest))
    (hMissed : ∀ before c d more, ways ps before (c :: d :: more) = [] →
      division c d more.head? = false) (before : Option Char) (cs : List Char) :
    replaceFrom ps ['_'].intercalate before cs = marked division cs := by
  induction hLength : cs.length using Nat.strong_induction_on generalizing before cs with
  | _ n ih =>
    subst hLength
    cases cs with
    | nil => simp [marked]
    | cons c cs =>
      cases hWays : ways ps before (c :: cs) with
      | nil =>
        rw [replaceFrom_passed hWays, ih _ (by simp) _ _ rfl, marked_cons]
        rintro d more rfl
        exact hMissed before c d more hWays
      | cons groups others =>
        have hFirst : (ways ps before (c :: cs)).head? = some groups := by rw [hWays]; rfl
        obtain ⟨u, v, rest, rfl, hSome, hText, hMarked⟩ :=
          hFound before (c :: cs) groups (List.mem_of_mem_head? hFirst)
        have hFewer : rest.length < (c :: cs).length := by
          have := List.length_pos_of_ne_nil hSome
          rw [hText, List.length_append, List.length_append]
          omega
        rw [hMarked]
        rw [hText] at hFirst ⊢
        rw [replaceFrom_matched hFirst (by simp) (by simp [hSome]), ih _ hFewer _ _ rfl]
        simp [List.intercalate_cons_cons]

end

/-! ## Classes of characters -/

section

variable {c : Char}

theorem isAlphanum_of_isUpper (h : c.isUpper = true) : c.isAlphanum = true :=
  Bool.or_eq_true_iff.mpr (.inl (Bool.or_eq_true_iff.mpr (.inl h)))

theorem isAlphanum_of_isLower (h : c.isLower = true) : c.isAlphanum = true :=
  Bool.or_eq_true_iff.mpr (.inl (Bool.or_eq_true_iff.mpr (.inr h)))

theorem isAlphanum_of_isDigit (h : c.isDigit = true) : c.isAlphanum = true :=
  Bool.or_eq_true_iff.mpr (.inr h)

/-- A letter or digit is of one class. -/
theorem class_spec (h : c.isAlphanum = true) :
    c.isUpper = true ∧ c.isLower = false ∧ c.isDigit = false ∨
      c.isUpper = false ∧ c.isLower = true ∧ c.isDigit = false ∨
        c.isUpper = false ∧ c.isLower = false ∧ c.isDigit = true :=
  alphanum_forall (P := fun c => c.isUpper = true ∧ c.isLower = false ∧ c.isDigit = false ∨
    c.isUpper = false ∧ c.isLower = true ∧ c.isDigit = false ∨
      c.isUpper = false ∧ c.isLower = false ∧ c.isDigit = true) (by decide) h

/-- Any other character is of none. -/
theorem not_class (h : ¬ c.isAlphanum = true) :
    c.isUpper = false ∧ c.isLower = false ∧ c.isDigit = false :=
  ⟨Bool.eq_false_iff.mpr fun hUpper => h (isAlphanum_of_isUpper hUpper),
    Bool.eq_false_iff.mpr fun hLower => h (isAlphanum_of_isLower hLower),
    Bool.eq_false_iff.mpr fun hDigit => h (isAlphanum_of_isDigit hDigit)⟩

theorem not_isLower_of_isUpper (h : c.isUpper = true) : c.isLower = false := by
  rcases class_spec (isAlphanum_of_isUpper h) with hClass | hClass | hClass <;> simp_all

theorem not_isDigit_of_isUpper (h : c.isUpper = true) : c.isDigit = false := by
  rcases class_spec (isAlphanum_of_isUpper h) with hClass | hClass | hClass <;> simp_all

theorem not_isUpper_of_isLower (h : c.isLower = true) : c.isUpper = false :=
  Bool.eq_false_iff.mpr fun hUpper => by simp [not_isLower_of_isUpper hUpper] at h

theorem not_isDigit_of_isLower (h : c.isLower = true) : c.isDigit = false := by
  rcases class_spec (isAlphanum_of_isLower h) with hClass | hClass | hClass <;> simp_all

/-- No small letter follows directly if only capitals stand before what comes next. -/
theorem head?_not_isLower {v rest : List Char} (hv : ∀ a ∈ v, a.isUpper = true)
    (hRest : rest.head?.any Char.isLower = false) :
    (v ++ rest).head?.any Char.isLower = false := by
  cases v with
  | nil => exact hRest
  | cons a v => exact not_isLower_of_isUpper (hv a List.mem_cons_self)

end

/-! ## Where segments start -/

/-- Before the last capital of several if a small letter follows it. -/
def afterCapital : Division := fun a b next => a.isUpper && b.isUpper && next.any Char.isLower

/-- Before a capital after a small letter or a digit. -/
def afterSmall : Division := fun a b _ => (a.isLower || a.isDigit) && b.isUpper

section

variable {c d : Char} {v cs rest : List Char} {before : Option Char}

/-- Several capitals before a small letter are divided at one place. -/
theorem marked_capitals (hSome : v ≠ []) (hv : ∀ a ∈ v, a.isUpper = true) (hc : c.isUpper = true)
    (hd : d.isLower = true) : marked afterCapital (v ++ c :: d :: rest) =
      v ++ '_' :: c :: d :: marked afterCapital rest := by
  have hCapital : d.isUpper = false := not_isUpper_of_isLower hd
  have hEnd : marked afterCapital (c :: d :: rest) = c :: d :: marked afterCapital rest := by
    rw [marked_cons (by rintro _ _ ⟨⟩; simp [afterCapital, hCapital]),
      marked_cons (by rintro _ _ rfl; simp [afterCapital, hCapital])]
  induction v with
  | nil => exact absurd rfl hSome
  | cons a v ih =>
    obtain ⟨ha, hv⟩ := List.forall_mem_cons.mp hv
    cases v with
    | nil =>
      rw [List.singleton_append, marked_divided (by simp [afterCapital, ha, hc, hd]), hEnd]
      rfl
    | cons b v =>
      obtain ⟨-, hLater⟩ := List.forall_mem_cons.mp hv
      rw [List.cons_append, marked_cons, ih (by simp) hv]
      · rfl
      · rintro e more ⟨⟩
        -- another capital follows, not a small letter
        have hNext : (v ++ c :: d :: rest).head?.any Char.isLower = false :=
          head?_not_isLower hLater (not_isLower_of_isUpper hc)
        change (a.isUpper && b.isUpper && (v ++ c :: d :: rest).head?.any Char.isLower) = false
        rw [hNext, Bool.and_false]

theorem mem_ways_divideCapitals {groups : List (List Char)} :
    groups ∈ ways divideCapitals.patterns before cs ↔ ∃ v c d rest, groups = [v, [c, d]] ∧
      cs = v ++ c :: d :: rest ∧ v ≠ [] ∧ (∀ a ∈ v, a.isUpper = true) ∧ c.isUpper = true ∧
        d.isLower = true := by
  simp only [divideCapitals, capitalStart, mem_ways_cons, mem_ways_nil, takes_repeated, takes_both,
    takes_one]
  constructor
  · rintro ⟨v, rest, others, rfl, ⟨hSome, hv⟩, ⟨w, rest, others, rfl,
      ⟨_, _, rfl, ⟨c, rfl, hc⟩, d, rfl, hd⟩, rfl, rfl⟩, rfl⟩
    exact ⟨v, c, d, rest, rfl, rfl, List.ne_nil_of_length_pos hSome, hv, hc, hd⟩
  · rintro ⟨v, c, d, rest, rfl, rfl, hSome, hv, hc, hd⟩
    exact ⟨v, _, _, rfl, ⟨List.length_pos_of_ne_nil hSome, hv⟩, ⟨[c, d], rest, _, rfl,
      ⟨[c], [d], rfl, ⟨c, rfl, hc⟩, d, rfl, hd⟩, rfl, rfl⟩, rfl⟩

theorem apply_divideCapitals (cs : List Char) :
    divideCapitals.apply cs = marked afterCapital cs := by
  refine replaceFrom_eq_marked ?_ ?_ none cs
  · intro before cs groups hWay
    obtain ⟨v, c, d, rest, rfl, rfl, hSome, hv, hc, hd⟩ := mem_ways_divideCapitals.mp hWay
    exact ⟨v, [c, d], rest, rfl, hSome, by simp, marked_capitals hSome hv hc hd⟩
  · intro before c d more hNone
    by_contra hDivided
    simp only [afterCapital, Bool.not_eq_false, Bool.and_eq_true] at hDivided
    obtain ⟨⟨hc, hd⟩, hNext⟩ := hDivided
    obtain ⟨e, rest, rfl, he⟩ := exists_head hNext
    have hWay : [[c], [d, e]] ∈ ways divideCapitals.patterns before (c :: d :: e :: rest) :=
      mem_ways_divideCapitals.mpr ⟨[c], d, e, rest, rfl, rfl, by simp, by simpa using hc, hd, he⟩
    rw [hNone] at hWay
    cases hWay

theorem mem_ways_divideSmall {groups : List (List Char)} :
    groups ∈ ways divideSmall.patterns before cs ↔ ∃ c d rest, groups = [[c], [d]] ∧
      cs = c :: d :: rest ∧ (c.isLower || c.isDigit) = true ∧ d.isUpper = true := by
  simp only [divideSmall, mem_ways_cons, mem_ways_nil, takes_one]
  constructor
  · rintro ⟨_, _, _, rfl, ⟨c, rfl, hc⟩, ⟨_, rest, _, rfl, ⟨d, rfl, hd⟩, rfl, rfl⟩, rfl⟩
    exact ⟨c, d, rest, rfl, rfl, hc, hd⟩
  · rintro ⟨c, d, rest, rfl, rfl, hc, hd⟩
    exact ⟨[c], _, _, rfl, ⟨c, rfl, hc⟩, ⟨[d], rest, _, rfl, ⟨d, rfl, hd⟩, rfl, rfl⟩, rfl⟩

theorem apply_divideSmall (cs : List Char) : divideSmall.apply cs = marked afterSmall cs := by
  refine replaceFrom_eq_marked ?_ ?_ none cs
  · intro before cs groups hWay
    obtain ⟨c, d, rest, rfl, rfl, hc, hd⟩ := mem_ways_divideSmall.mp hWay
    refine ⟨[c], [d], rest, rfl, by simp, by simp, ?_⟩
    rw [marked_divided (by simp [afterSmall, hc, hd]),
      marked_cons (by rintro _ _ rfl; simp [afterSmall, not_isLower_of_isUpper hd,
        not_isDigit_of_isUpper hd])]
    rfl
  · intro before c d more hNone
    by_contra hDivided
    simp only [afterSmall, Bool.not_eq_false, Bool.and_eq_true] at hDivided
    have hWay : [[c], [d]] ∈ ways divideSmall.patterns before (c :: d :: more) :=
      mem_ways_divideSmall.mpr ⟨c, d, more, rfl, rfl, hDivided.1, hDivided.2⟩
    rw [hNone] at hWay
    cases hWay

/-- A segment starts where one of the two divisions divides. -/
theorem startsSegment_eq (a b : Char) (next : Option Char) :
    startsSegment a b next = (afterSmall a b next || afterCapital a b next) := by
  unfold startsSegment afterSmall afterCapital
  cases a.isUpper <;> cases b.isUpper <;> simp

theorem marked_start (division : Division) (c : Char) (cs : List Char) :
    ∃ rest, marked division (c :: cs) = c :: rest := by
  cases cs with
  | nil => exact ⟨[], rfl⟩
  | cons d more =>
    rw [marked]
    split <;> exact ⟨_, rfl⟩

/-- The marks of both divisions are those of segments. -/
theorem marked_marked (cs : List Char) :
    marked afterSmall (marked afterCapital cs) = marked startsSegment cs := by
  have hLine : '_'.isUpper = false ∧ ('_'.isLower || '_'.isDigit) = false := by decide
  fun_induction marked afterCapital cs with
  | case1 => rfl
  | case2 c => rfl
  | case3 c d more hDivided ih =>
    rw [marked_cons (by rintro _ _ ⟨⟩; simp [afterSmall, hLine.1]),
      marked_cons (by intro _ _ _; simp [afterSmall]), ih,
      marked_divided (by rw [startsSegment_eq, hDivided, Bool.or_true])]
  | case4 c d more hWhole ih =>
    obtain ⟨rest, hRest⟩ := marked_start afterCapital d more
    have hSame : startsSegment c d more.head? = afterSmall c d rest.head? := by
      rw [startsSegment_eq, Bool.eq_false_iff.mpr hWhole, Bool.or_false]
      rfl
    rw [hRest] at ih ⊢
    rw [marked, marked, ih, hSame]

/-- The division of no run. -/
def undivided : Division := fun _ _ _ => false

/-- A mark divides a run, and nothing else changes. -/
theorem runs_marked {division : Division} (h : ∀ {a b next}, division a b next = true →
    a.isAlphanum = true ∧ b.isAlphanum = true) (cs : List Char) :
    runs undivided (marked division cs) = runs division cs := by
  have hLine : ¬ '_'.isAlphanum = true := by decide
  fun_induction marked division cs with
  | case1 => rfl
  | case2 c => by_cases hc : c.isAlphanum = true <;> simp [runs, isWordChar, hc]
  | case3 c d more hDivided ih =>
    obtain ⟨hc, hd⟩ := h hDivided
    rw [runs_divided hc hLine, runs_skip hLine, ih, runs_cons hc hd, if_pos hDivided]
  | case4 c d more hWhole ih =>
    obtain ⟨rest, hRest⟩ := marked_start division d more
    rw [hRest] at ih ⊢
    by_cases hc : c.isAlphanum = true
    · by_cases hd : d.isAlphanum = true
      · rw [runs_cons hc hd, runs_cons hc hd, ih, if_neg hWhole, undivided,
          if_neg Bool.false_ne_true]
      · rw [runs_divided hc hd, runs_divided hc hd, ih]
    · rw [runs_skip hc, runs_skip hc, ih]

end

/-! ## Blanks -/

/-- The character that stands for one when everything else than letters and digits is made `x`. -/
def shown (x c : Char) : Char := if isWordChar c then c else x

section

variable {x c : Char}

theorem shown_of_word (h : c.isAlphanum = true) : shown x c = c := if_pos h

theorem shown_of_other (h : ¬ c.isAlphanum = true) : shown x c = x := if_neg h

theorem of_mem_map_shown {cs : List Char} (h : c ∈ cs.map (shown x)) :
    c.isAlphanum = true ∨ c = x := by
  obtain ⟨d, -, rfl⟩ := List.mem_map.mp h
  by_cases hd : d.isAlphanum = true
  · exact .inl (by rwa [shown_of_word hd])
  · exact .inr (shown_of_other hd)

theorem apply_blank (x : Char) (cs : List Char) : (blank x).apply cs = cs.map (shown x) := by
  suffices h : ∀ before, replaceFrom (blank x).patterns (blank x).put before cs =
      cs.map (shown x) from h none
  induction cs with
  | nil => intro _; exact replaceFrom_nil
  | cons c cs ih =>
    intro before
    cases hWord : isWordChar c with
    | true =>
      have hWays : ways (blank x).patterns before (c :: cs) = [] := by
        simp [blank, hWord]
      rw [replaceFrom_passed hWays, ih, List.map_cons, shown_of_word hWord]
    | false =>
      have hWays : (ways (blank x).patterns before ([c] ++ cs)).head? = some [[c]] := by
        simp [blank, hWord]
      rw [← List.singleton_append, replaceFrom_matched hWays rfl (by simp), ih,
        List.map_append, List.map_singleton, shown_of_other (ne_true_of_eq_false hWord)]
      rfl

/-- Blanks belong to no run. -/
theorem runs_map_shown {division : Division} (hx : ¬ x.isAlphanum = true)
    (hDivision : ∀ a b next, division a b (next.map (shown x)) = division a b next)
    (cs : List Char) : runs division (cs.map (shown x)) = runs division cs := by
  induction cs with
  | nil => rfl
  | cons c cs ih =>
    by_cases hc : c.isAlphanum = true
    · cases cs with
      | nil => rw [List.map_singleton, shown_of_word hc]
      | cons d more =>
        rw [List.map_cons] at ih
        rw [List.map_cons, List.map_cons, shown_of_word hc]
        by_cases hd : d.isAlphanum = true
        · rw [shown_of_word hd] at ih ⊢
          rw [runs_cons hc hd, runs_cons hc hd, ih, List.head?_map, hDivision]
        · rw [shown_of_other hd] at ih ⊢
          rw [runs_divided hc hx, runs_divided hc hd, ih]
    · rw [List.map_cons, shown_of_other hc, runs_skip hx, runs_skip hc, ih]

end

end EntityGraph.Naming
