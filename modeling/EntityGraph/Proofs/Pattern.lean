import Mathlib.Data.List.TakeWhile

/-!
# Patterns of characters

A pattern describes pieces of a text.  Where it can match in several ways, these are tried in a fixed
order, and a way that what comes next does not fit is given up for the next one.  A search goes
through a text from the left: where the patterns match, it takes the first of the ways and goes on
behind it, and any other character is passed over.

* `Pattern.ends`, `Pattern.ways`: how patterns match at a place, in the order of the attempts;
* `Pattern.replaceFrom`, `Pattern.findFrom`: the two uses of a search;
* `Pattern.Takes`: what a pattern may match, in any order, by the forms of patterns;
* `Pattern.mem_ways_cons`: a way of several patterns is one of each of them;
* `Pattern.replaceFrom_matched`, `Pattern.findFrom_matched`: a search steps over a match;
* `Pattern.run_append`, `Pattern.head?_ends_repeated`: the run of a kind that a text starts with.
-/

namespace EntityGraph

/-- A pattern of characters. -/
inductive Pattern where
  /-- One character of a kind. -/
  | one (kind : Char → Bool)
  /-- One character of a kind, or else nothing. -/
  | optional (kind : Char → Bool)
  /-- As many characters of a kind as there are, or else fewer, but not fewer than the least. -/
  | repeated (least : Nat) (kind : Char → Bool)
  /-- One pattern after another. -/
  | both (first second : Pattern)
  /-- One pattern, or else another. -/
  | either (first second : Pattern)
  /-- Nothing, where a pattern matches. -/
  | ahead (pattern : Pattern)
  /-- Nothing, at an end of a word. -/
  | edge
  /-- Nothing, at the start of the text. -/
  | start
  /-- Nothing, at the end of the text or before a line break there. -/
  | finish

namespace Pattern

/-- A character of a word. -/
def isInner (c : Char) : Bool := c.isAlphanum || c = '_'

/-- The last character of a text, or the one before it if the text is empty. -/
def latest (before : Option Char) (w : List Char) : Option Char := w.getLast?.or before

/-- The lengths of the matches of a pattern at a place of a text, in the order of the attempts;
`before` is the character before that place. -/
@[simp] def ends : Pattern → (before : Option Char) → List Char → List Nat
  | one kind, _, cs => if cs.head?.any kind then [1] else []
  | optional kind, _, cs => if cs.head?.any kind then [1, 0] else [0]
  | repeated least kind, _, cs =>
    (List.range ((cs.takeWhile kind).length + 1)).reverse.filter (least ≤ ·)
  | both p q, before, cs => (p.ends before cs).flatMap fun n =>
      (q.ends (latest before (cs.take n)) (cs.drop n)).map (n + ·)
  | either p q, before, cs => p.ends before cs ++ q.ends before cs
  | ahead p, before, cs => if (p.ends before cs).isEmpty then [] else [0]
  | edge, before, cs => if before.any isInner != cs.head?.any isInner then [0] else []
  | start, before, _ => if before.isNone then [0] else []
  | finish, _, cs => if cs = [] || cs = ['\n'] then [0] else []

/-- The ways in which several patterns match one after another, each as the texts of the groups. -/
@[simp] def ways : List Pattern → (before : Option Char) → List Char → List (List (List Char))
  | [], _, _ => [[]]
  | p :: ps, before, cs => (p.ends before cs).flatMap fun n =>
      (ways ps (latest before (cs.take n)) (cs.drop n)).map (cs.take n :: ·)

/-! ## Searches -/

/-- What a search finds: a character that it passes over, or a match with its groups. -/
inductive Finding where
  | passed (c : Char)
  | matched (groups : List (List Char))

/-- The findings in a text, from the left, behind as many characters as a match still takes.  A match
takes one character at least. -/
def search (ps : List Pattern) : (before : Option Char) → (taken : Nat) → List Char → List Finding
  | _, _, [] => []
  | _, taken + 1, c :: cs => search ps (some c) taken cs
  | before, 0, c :: cs =>
    match (ways ps before (c :: cs)).head? with
    | none => .passed c :: search ps (some c) 0 cs
    | some groups => .matched groups :: search ps (some c) (groups.flatten.length - 1) cs

/-- A text with every match replaced by what is put for its groups. -/
def replaceFrom (ps : List Pattern) (put : List (List Char) → List Char) (before : Option Char)
    (cs : List Char) : List Char :=
  (search ps before 0 cs).flatMap fun
    | .passed c => [c]
    | .matched groups => put groups

/-- All matches of a pattern in a text. -/
def findFrom (p : Pattern) (before : Option Char) (cs : List Char) : List (List Char) :=
  (search [p] before 0 cs).filterMap fun
    | .passed _ => none
    | .matched groups => some groups.flatten

section

variable {ps : List Pattern} {before : Option Char} {c : Char} {w rest : List Char}
  {groups : List (List Char)}

theorem search_cons {cs : List Char} : search ps before 0 (c :: cs) =
    match (ways ps before (c :: cs)).head? with
    | none => .passed c :: search ps (some c) 0 cs
    | some groups => .matched groups :: search ps (some c) (groups.flatten.length - 1) cs := rfl

theorem search_passed {cs : List Char} (h : ways ps before (c :: cs) = []) :
    search ps before 0 (c :: cs) = .passed c :: search ps (some c) 0 cs := by
  rw [search_cons, h]
  rfl

/-- Behind a match the search goes on. -/
theorem search_taken : search ps before w.length (w ++ rest) = search ps (latest before w) 0 rest := by
  induction w generalizing before with
  | nil => rfl
  | cons c w ih =>
    have hLatest : latest (some c) w = latest before (c :: w) := by
      simp only [latest, List.getLast?_cons, Option.some_or]
      cases w.getLast? <;> rfl
    rw [← hLatest]
    exact ih

theorem search_matched (h : (ways ps before (w ++ rest)).head? = some groups)
    (hText : groups.flatten = w) (hSome : w ≠ []) :
    search ps before 0 (w ++ rest) = .matched groups :: search ps (latest before w) 0 rest := by
  rw [← search_taken]
  cases w with
  | nil => exact absurd rfl hSome
  | cons c w =>
    rw [List.cons_append] at h ⊢
    rw [search_cons, h]
    simp only [hText]
    rfl

variable {put : List (List Char) → List Char} {p : Pattern}

@[simp] theorem replaceFrom_nil : replaceFrom ps put before [] = [] := rfl

theorem replaceFrom_passed {cs : List Char} (h : ways ps before (c :: cs) = []) :
    replaceFrom ps put before (c :: cs) = c :: replaceFrom ps put (some c) cs := by
  rw [replaceFrom, search_passed h]
  rfl

theorem replaceFrom_matched (h : (ways ps before (w ++ rest)).head? = some groups)
    (hText : groups.flatten = w) (hSome : w ≠ []) :
    replaceFrom ps put before (w ++ rest) =
      put groups ++ replaceFrom ps put (latest before w) rest := by
  rw [replaceFrom, search_matched h hText hSome]
  rfl

@[simp] theorem findFrom_nil : findFrom p before [] = [] := rfl

theorem findFrom_passed {cs : List Char} (h : p.ends before (c :: cs) = []) :
    findFrom p before (c :: cs) = findFrom p (some c) cs := by
  have hWays : ways [p] before (c :: cs) = [] := by simp [h]
  rw [findFrom, search_passed hWays]
  rfl

theorem head?_ways_singleton {cs : List Char} :
    (ways [p] before cs).head? = (p.ends before cs).head?.map fun n => [cs.take n] := by
  cases h : p.ends before cs <;> simp [h]

theorem findFrom_matched (h : (p.ends before (w ++ rest)).head? = some w.length) (hSome : w ≠ []) :
    findFrom p before (w ++ rest) = w :: findFrom p (latest before w) rest := by
  have hWays : (ways [p] before (w ++ rest)).head? = some [w] := by
    rw [head?_ways_singleton, h, Option.map_some, List.take_left]
  rw [findFrom, search_matched hWays (by simp) hSome]
  simp [findFrom]

end

/-! ## What a pattern may match -/

/-- A pattern may match a text with another one behind it. -/
def Takes (p : Pattern) (before : Option Char) (w rest : List Char) : Prop :=
  w.length ∈ p.ends before (w ++ rest)

section

variable {p q : Pattern} {kind : Char → Bool} {before : Option Char} {cs w rest : List Char}

theorem le_length {n : Nat} (h : n ∈ p.ends before cs) : n ≤ cs.length := by
  induction p generalizing before cs n with
  | one kind | optional kind =>
    cases cs with
    | nil => simp_all
    | cons c cs =>
      simp only [ends] at h
      split at h <;> simp at h <;> simp <;> omega
  | repeated least kind =>
    have hRun := (List.takeWhile_prefix kind (l := cs)).length_le
    simp only [ends, List.mem_filter, List.mem_reverse, List.mem_range] at h
    omega
  | both p q ihp ihq =>
    simp only [ends, List.mem_flatMap, List.mem_map] at h
    obtain ⟨m, hm, k, hk, rfl⟩ := h
    have hFirst := ihp hm
    have hSecond := ihq hk
    rw [List.length_drop] at hSecond
    omega
  | either p q ihp ihq => exact (List.mem_append.mp h).elim ihp ihq
  | ahead p _ | edge | start | finish =>
    simp only [ends] at h
    split at h <;> simp_all

theorem exists_takes {n : Nat} (h : n ∈ p.ends before cs) :
    ∃ w rest, cs = w ++ rest ∧ w.length = n ∧ p.Takes before w rest := by
  have hLength : (cs.take n).length = n := List.length_take_of_le (le_length h)
  refine ⟨cs.take n, cs.drop n, (List.take_append_drop n cs).symm, hLength, ?_⟩
  rwa [Takes, List.take_append_drop, hLength]

theorem ends_both : (both p q).ends before cs = (p.ends before cs).flatMap fun n =>
    (q.ends (latest before (cs.take n)) (cs.drop n)).map (n + ·) := rfl

theorem takes_one : (one kind).Takes before w rest ↔ ∃ c, w = [c] ∧ kind c = true := by
  match w with
  | [] => by_cases h : rest.head?.any kind = true <;> simp [Takes, h]
  | [c] => by_cases h : kind c = true <;> simp [Takes, h]
  | c :: d :: w => by_cases h : kind c = true <;> simp [Takes, h]

theorem takes_repeated {least : Nat} : (repeated least kind).Takes before w rest ↔
    least ≤ w.length ∧ ∀ c ∈ w, kind c = true := by
  have hRun : w.length ≤ ((w ++ rest).takeWhile kind).length ↔ ∀ c ∈ w, kind c = true := by
    constructor
    · intro hLength c hc
      have hPrefix : w <+: (w ++ rest).takeWhile kind :=
        List.prefix_of_prefix_length_le (List.prefix_append w rest)
          (List.takeWhile_prefix kind) hLength
      exact List.mem_takeWhile_imp (hPrefix.subset hc)
    · intro hAll
      rw [List.takeWhile_append_of_pos hAll, List.length_append]
      exact Nat.le_add_right _ _
  simp only [Takes, ends, List.mem_filter, List.mem_reverse, List.mem_range, decide_eq_true_eq,
    Nat.lt_succ_iff, hRun]
  exact and_comm

theorem takes_both : (both p q).Takes before w rest ↔
    ∃ u v, w = u ++ v ∧ p.Takes before u (v ++ rest) ∧ q.Takes (latest before u) v rest := by
  simp only [Takes, ends, List.mem_flatMap, List.mem_map]
  constructor
  · rintro ⟨m, hm, k, hk, hLength⟩
    obtain ⟨u, v, rfl, rfl⟩ : ∃ u v, w = u ++ v ∧ u.length = m :=
      ⟨w.take m, w.drop m, (List.take_append_drop m w).symm, List.length_take_of_le (by omega)⟩
    obtain rfl : k = v.length := by
      rw [List.length_append] at hLength
      omega
    rw [List.append_assoc] at hm hk
    rw [List.take_left, List.drop_left] at hk
    exact ⟨u, v, rfl, hm, hk⟩
  · rintro ⟨u, v, rfl, hu, hv⟩
    refine ⟨u.length, ?_, v.length, ?_, ?_⟩
    · rwa [List.append_assoc]
    · rwa [List.append_assoc, List.take_left, List.drop_left]
    · rw [List.length_append]

theorem takes_either : (either p q).Takes before w rest ↔
    p.Takes before w rest ∨ q.Takes before w rest := List.mem_append

theorem takes_start : start.Takes before w rest ↔ w = [] ∧ before = none := by
  by_cases h : before = none <;> simp [Takes, h]

theorem takes_finish : finish.Takes before w rest ↔ w = [] ∧ (rest = [] ∨ rest = ['\n']) := by
  simp only [Takes, ends, Bool.or_eq_true, decide_eq_true_eq]
  split
  · rename_i h
    cases w <;> simp_all
  · rename_i h
    cases w <;> simp_all

/-- A way of several patterns is one of the first with one of the others behind it. -/
theorem mem_ways_cons {ps : List Pattern} {groups : List (List Char)} :
    groups ∈ ways (p :: ps) before cs ↔ ∃ w rest others, cs = w ++ rest ∧ p.Takes before w rest ∧
      others ∈ ways ps (latest before w) rest ∧ groups = w :: others := by
  simp only [ways, List.mem_flatMap, List.mem_map]
  constructor
  · rintro ⟨n, hn, others, hOthers, rfl⟩
    obtain ⟨w, rest, rfl, rfl, hTakes⟩ := exists_takes hn
    rw [List.take_left, List.drop_left] at hOthers
    exact ⟨w, rest, others, rfl, hTakes, hOthers, by rw [List.take_left]⟩
  · rintro ⟨w, rest, others, rfl, hTakes, hOthers, rfl⟩
    refine ⟨w.length, hTakes, others, ?_, ?_⟩
    · rwa [List.take_left, List.drop_left]
    · rw [List.take_left]

theorem mem_ways_nil {groups : List (List Char)} : groups ∈ ways [] before cs ↔ groups = [] :=
  List.mem_singleton

theorem exists_head (h : cs.head?.any kind = true) :
    ∃ c rest, cs = c :: rest ∧ kind c = true := by
  cases cs with
  | nil => cases h
  | cons c rest => exact ⟨c, rest, rfl, h⟩

/-- A text is the run of a kind that it starts with and the rest, which starts with no such
character. -/
theorem run_append (kind : Char → Bool) (cs : List Char) : ∃ w rest, cs = w ++ rest ∧
    cs.takeWhile kind = w ∧ cs.dropWhile kind = rest ∧ (∀ c ∈ w, kind c = true) ∧
      rest.head?.any kind = false := by
  refine ⟨_, _, List.takeWhile_append_dropWhile.symm, rfl, rfl,
    fun c hc => List.mem_takeWhile_imp hc, ?_⟩
  cases hRest : cs.dropWhile kind with
  | nil => rfl
  | cons c rest =>
    have hStop := List.head?_dropWhile_not kind cs
    simpa [hRest] using hStop

/-- The run of a kind that starts with a character. -/
theorem run_cons {c : Char} (hc : kind c = true) (cs : List Char) : ∃ v rest, cs = v ++ rest ∧
    (c :: cs).takeWhile kind = c :: v ∧ (∀ a ∈ c :: v, kind a = true) ∧
      rest.head?.any kind = false := by
  obtain ⟨v, rest, hText, hRun, -, hv, hRest⟩ := run_append kind cs
  exact ⟨v, rest, hText, by rw [List.takeWhile_cons_of_pos hc, hRun],
    List.forall_mem_cons.mpr ⟨hc, hv⟩, hRest⟩

/-- The longest run is tried first. -/
theorem head?_ends_repeated {least : Nat} (hRun : cs.takeWhile kind = w)
    (hLeast : least ≤ w.length) : ((repeated least kind).ends before cs).head? = some w.length := by
  simp [hRun, List.range_succ, hLeast]

end

end Pattern

end EntityGraph
