import EntityGraph.Naming.Case
import Mathlib.Data.List.Basic

/-!
# Characters of cased names

The words of a name hold its letters and digits and nothing else, and a casing only changes the
letters among them.

* `runs_spec`, `flatten_runs`: the runs of a name;
* `mem_pascalCase`, `mem_snakeCase`: the characters of the two casings that the module is written
  with;
* `pascalCase_head`: the first of several capitals is none of the small letters.
-/

namespace EntityGraph.Naming

theorem runs_spec (division : Division) (name : List Char) :
    ∀ run ∈ runs division name, run ≠ [] ∧ ∀ c ∈ run, c.isAlphanum = true := by
  have hSingle : ∀ c, isWordChar c = true → ∀ run ∈ [[c]],
      run ≠ [] ∧ ∀ d ∈ run, d.isAlphanum = true := by
    intro c hWord run hRun
    obtain rfl := List.mem_singleton.mp hRun
    exact ⟨List.cons_ne_nil _ _, List.forall_mem_singleton.mpr hWord⟩
  fun_induction runs division name with
  | case1 => simp
  | case2 c hWord => exact hSingle c hWord
  | case3 c hWord d more hSame run others hRuns ih =>
    rw [hRuns] at ih ⊢
    obtain ⟨⟨-, hRun⟩, hOthers⟩ := List.forall_mem_cons.mp ih
    have hFirst : ∀ e ∈ c :: run, e.isAlphanum = true := List.forall_mem_cons.mpr ⟨hWord, hRun⟩
    exact List.forall_mem_cons.mpr ⟨⟨List.cons_ne_nil _ _, hFirst⟩, hOthers⟩
  | case4 c hWord d more hSame hRuns ih =>
    rw [hRuns]
    exact hSingle c hWord
  | case5 c hWord d more hDivided ih =>
    exact List.forall_mem_cons.mpr ⟨hSingle c hWord [c] (.head _), ih⟩
  | case6 c rest hOther ih => exact ih

/-- The runs hold the letters and digits of a name in their order. -/
theorem flatten_runs (division : Division) (name : List Char) :
    (runs division name).flatten = name.filter isWordChar := by
  fun_induction runs division name with
  | case1 => rfl
  | case2 c hWord => simp [hWord]
  | case3 c hWord d more hSame run others hRuns ih =>
    rw [hRuns] at ih ⊢
    rw [List.filter_cons_of_pos hWord, ← ih]
    rfl
  | case4 c hWord d more hSame hRuns ih =>
    rw [hRuns] at ih ⊢
    rw [List.filter_cons_of_pos hWord, ← ih]
    rfl
  | case5 c hWord d more hDivided ih =>
    rw [List.filter_cons_of_pos hWord, ← ih]
    rfl
  | case6 c rest hOther ih => rw [List.filter_cons_of_neg hOther, ih]

theorem toNat_of_isAlphanum {c : Char} (h : c.isAlphanum = true) : c.toNat < 128 := by
  change (decide (c.val ≥ 65 ∧ c.val ≤ 90) ||
    (decide (c.val ≥ 97) && decide (c.val ≤ 122)) ||
      (decide (c.val ≥ 48) && decide (c.val ≤ 57))) = true at h
  simp only [Bool.or_eq_true, Bool.and_eq_true, decide_eq_true_eq, UInt32.le_iff_toNat_le,
    ge_iff_le] at h
  change ((65 ≤ c.toNat ∧ c.toNat ≤ 90) ∨ (97 ≤ c.toNat ∧ c.toNat ≤ 122)) ∨
    (48 ≤ c.toNat ∧ c.toNat ≤ 57) at h
  omega

/-- What holds of the letters and digits among the first characters holds of all. -/
theorem alphanum_forall {P : Char → Prop}
    (h : ∀ n < 128, (Char.ofNat n).isAlphanum = true → P (Char.ofNat n)) {c : Char}
    (hc : c.isAlphanum = true) : P c := by
  have hCode := h c.toNat (toNat_of_isAlphanum hc)
  rw [Char.ofNat_toNat] at hCode
  exact hCode hc

/-- The two casings of a letter or digit are letters or digits, and a capital is no small letter. -/
theorem casing_spec {c : Char} (h : c.isAlphanum = true) : c.toLower.isAlphanum = true ∧
    c.toUpper.isAlphanum = true ∧ c.toUpper.isLower = false :=
  alphanum_forall (P := fun c => c.toLower.isAlphanum = true ∧ c.toUpper.isAlphanum = true ∧
    c.toUpper.isLower = false) (by decide +kernel) h

theorem lower_isAlphanum {w : List Char} (h : ∀ c ∈ w, c.isAlphanum = true) :
    ∀ c ∈ lower w, c.isAlphanum = true := by
  intro c hc
  obtain ⟨d, hd, rfl⟩ := List.mem_map.mp hc
  exact (casing_spec (h d hd)).1

/-- The characters of a name in Pascal case. -/
theorem mem_pascalCase {name : String} {c : Char} (h : c ∈ (pascalCase name).toList) :
    c.isAlphanum = true := by
  rw [pascalCase, String.toList_ofList] at h
  obtain ⟨word, hWord, hc⟩ := List.mem_flatten.mp h
  obtain ⟨small, hSmall, rfl⟩ := List.mem_map.mp hWord
  obtain ⟨run, hRun, rfl⟩ := List.mem_map.mp hSmall
  have hLower := lower_isAlphanum (runs_spec _ _ run hRun).2
  cases hChars : lower run with
  | nil => simp [hChars, capitalize] at hc
  | cons first rest =>
    rw [hChars, List.forall_mem_cons] at hLower
    rw [hChars, capitalize] at hc
    rcases List.mem_cons.mp hc with rfl | hc
    · exact (casing_spec hLower.1).2.1
    · exact hLower.2 c hc

/-- A name in Pascal case starts with no small letter. -/
theorem pascalCase_head {name : String} {c : Char} (h : c ∈ (pascalCase name).toList.head?) :
    c.isLower = false := by
  rw [pascalCase, String.toList_ofList, pascalChars, words] at h
  cases hRuns : runs startsWord name.toList with
  | nil => simp [hRuns] at h
  | cons run others =>
    obtain ⟨hSome, hChars⟩ := runs_spec startsWord name.toList run (hRuns ▸ List.mem_cons_self)
    obtain ⟨first, rest, rfl⟩ := List.exists_cons_of_ne_nil hSome
    obtain rfl : first.toLower.toUpper = c := by simpa [hRuns, lower, capitalize] using h
    have hSmall := (casing_spec (hChars first List.mem_cons_self)).1
    exact (casing_spec hSmall).2.2

/-- The characters of several words with underscores between them. -/
theorem mem_underscored {ws : List (List Char)} {c : Char} (h : c ∈ underscored ws) :
    (∃ w ∈ ws, c ∈ w) ∨ c = '_' := by
  fun_induction underscored ws with
  | case1 => cases h
  | case2 w => exact .inl ⟨w, .head _, h⟩
  | case3 w ws hMore ih =>
    rcases List.mem_append.mp h with hc | hc
    · exact .inl ⟨w, .head _, hc⟩
    · rcases List.mem_cons.mp hc with rfl | hc
      · exact .inr rfl
      · rcases ih hc with ⟨v, hv, hc⟩ | hLine
        · exact .inl ⟨v, .tail _ hv, hc⟩
        · exact .inr hLine

theorem mem_snakeCase {name : String} {c : Char} (h : c ∈ (snakeCase name).toList) :
    c.isAlphanum = true ∨ c = '_' := by
  rw [snakeCase, String.toList_ofList] at h
  rcases mem_underscored h with ⟨w, hw, hc⟩ | hLine
  · obtain ⟨run, hRun, rfl⟩ := List.mem_map.mp hw
    exact .inl (lower_isAlphanum (runs_spec _ _ run hRun).2 c hc)
  · exact .inr hLine

end EntityGraph.Naming
