import EntityGraph.Handlers.Path
import EntityGraph.Input.Coercion
import EntityGraph.Proofs.Casing

/-!
# Names and paths of a module

A name of ASCII letters, digits and underscores that is no keyword may be bound in a module exactly
if it is an identifier of the definitions.  A module in a package has a well-formed path exactly if
its own name may be bound.

* `keywords`, `IsBindable`: the names that a module may bind;
* `isIdentifier_iff`: the two notions of an identifier agree;
* `pathTokens_append`, `pathTokens_word`, `pathTokens_chars`: the tokens of a path;
* `settlePath?_eq`: what is lost when a path is settled;
* `settlePath?_member`: the path of a module in a package.
-/

namespace EntityGraph

namespace Handlers

/-- The words that the language of the module keeps for itself. -/
def keywords : List String := reservedWords ++ ["False", "None", "True", "async", "await"]

/-- A name that the module may give to a class, an attribute or a method. -/
def IsBindable (name : String) : Prop := Input.isIdentifier name = true ∧ name ∉ keywords

/-- Among names of ASCII letters, digits and underscores the identifiers are the same everywhere. -/
theorem isIdentifier_iff {name : String} (h : ∀ c ∈ name.toList, Input.isIdentifierPart c = true)
    (hFree : name ∉ keywords) : isIdentifier name = true ↔ Input.isIdentifier name = true := by
  have hReserved : reservedWords.contains name = false := by
    simpa using fun hMem => hFree (List.mem_append_left _ hMem)
  unfold isIdentifier Input.isIdentifier
  cases hChars : name.toList with
  | nil => rfl
  | cons c cs =>
    rw [hChars] at h
    obtain ⟨hFirst, hRest⟩ := List.forall_mem_cons.mp h
    have hAscii : c.toNat < 128 := by
      simp only [Input.isIdentifierPart, Bool.or_eq_true, decide_eq_true_eq] at hFirst
      rcases hFirst with hWord | rfl
      · exact Naming.toNat_of_isAlphanum hWord
      · decide
    have hStart : startsName c = Input.isIdentifierStart c := by
      have hLow : ¬ (128 ≤ c.toNat) := by omega
      simp [startsName, Input.isIdentifierStart, hLow]
    have hParts : cs.all continuesName = true := by
      refine List.all_eq_true.mpr fun d hd => ?_
      have hPart := hRest d hd
      simp only [Input.isIdentifierPart, Bool.or_eq_true] at hPart
      simp only [continuesName, Bool.or_eq_true]
      exact .inl hPart
    simp only [hStart, hParts, hReserved, List.all_eq_true.mpr hRest, Bool.and_true, Bool.not_false]

theorem pathTokens_append (current a b : List Char) :
    pathTokens current (a ++ '.' :: b) = pathTokens current a ++ .dot :: pathTokens [] b := by
  have hFlush : ∀ current ts ts', pathTokens.flush current (ts ++ ts') =
      pathTokens.flush current ts ++ ts' := by
    intro current ts ts'
    unfold pathTokens.flush
    split <;> rfl
  induction a generalizing current with
  | nil =>
    have hDot : pathTokens current ('.' :: b) = pathTokens.flush current (.dot :: pathTokens [] b) := by
      rw [pathTokens, if_pos rfl]
    rw [List.nil_append, hDot, pathTokens, ← hFlush, List.nil_append]
  | cons c a ih =>
    rw [List.cons_append, pathTokens, pathTokens]
    split
    · rw [ih, ← List.cons_append, hFlush]
    · split
      · rw [ih, hFlush]
      · exact ih _

/-- A word without dots and blanks is one name. -/
theorem pathTokens_word {w : List Char} (h : ∀ c ∈ w, Input.isIdentifierPart c = true)
    (current : List Char) (hSome : current ++ w ≠ []) :
    pathTokens current w = [.name (current.reverse ++ w)] := by
  induction w generalizing current with
  | nil =>
    obtain ⟨c, cs, rfl⟩ := List.exists_cons_of_ne_nil (by simpa using hSome)
    simp [pathTokens, pathTokens.flush]
  | cons c w ih =>
    obtain ⟨hFirst, hRest⟩ := List.forall_mem_cons.mp h
    have hDot : c ≠ '.' := by
      rintro rfl
      cases hFirst
    have hBlank : isPathBlank c = false := by
      refine Bool.eq_false_iff.mpr fun hBlank => ?_
      simp only [isPathBlank, Bool.or_eq_true, decide_eq_true_eq] at hBlank
      rcases hBlank with (rfl | rfl) | rfl <;> cases hFirst
    rw [pathTokens, if_neg hDot, if_neg (by simp [hBlank]), ih hRest (c :: current) (by simp)]
    simp

theorem isDottedName_append {ts : List PathToken} (h : isDottedName ts = true) (w : List Char) :
    isDottedName (ts ++ [.dot, .name w]) = isIdentifier (String.ofList w) := by
  fun_induction isDottedName ts with
  | case1 cs => simp [isDottedName, h]
  | case2 cs rest ih =>
    rw [Bool.and_eq_true] at h
    rw [List.cons_append, List.cons_append, isDottedName, h.1, ih h.2, Bool.true_and]
  | case3 => cases h

/-- Tokens of a well-formed path: dots, then names with dots between them. -/
def isSettled (tokens : List PathToken) : Bool :=
  isDottedName (tokens.dropWhile (· = .dot)) ||
    ((tokens.dropWhile (· = .dot)).isEmpty && !tokens.isEmpty)

theorem isSome_settlePath? (path : String) :
    (settlePath? path).isSome = isSettled (pathTokens [] path.toList) := by
  simp only [settlePath?, isSettled]
  split <;> simp_all

/-- The tokens of a path, with the name being read before them, spell the path without its blanks. -/
theorem pathTokens_chars (current cs : List Char) :
    (pathTokens current cs).flatMap PathToken.chars =
      current.reverse ++ cs.filter fun d => !isPathBlank d := by
  have hFlush : ∀ (current : List Char) (ts : List PathToken),
      (pathTokens.flush current ts).flatMap PathToken.chars =
        current.reverse ++ ts.flatMap PathToken.chars := by
    intro current ts
    cases current <;> simp [pathTokens.flush, PathToken.chars]
  induction cs generalizing current with
  | nil => simp [pathTokens, hFlush]
  | cons d cs ih =>
    rw [pathTokens]
    split
    · rename_i hDot
      subst hDot
      simp [hFlush, PathToken.chars, ih, isPathBlank]
    · split
      · rename_i hBlank
        simp [hFlush, ih, hBlank]
      · rename_i hBlank
        simp [ih, hBlank]

/-- A settled path has lost its blanks and nothing else. -/
theorem settlePath?_eq {path settled : String} (h : settlePath? path = some settled) :
    settled = String.ofList (path.toList.filter fun d => !isPathBlank d) := by
  rw [settlePath?] at h
  split at h
  · rw [← Option.some.inj h, pathTokens_chars, List.reverse_nil, List.nil_append]
  · cases h

/-- A module in a package has a well-formed path if its name is an identifier. -/
theorem settlePath?_member {package name : String} (hPackage : (settlePath? package).isSome = true)
    (h : ∀ c ∈ name.toList, Input.isIdentifierPart c = true) (hSome : name.toList ≠ []) :
    (settlePath? (package ++ "." ++ name)).isSome = isIdentifier name := by
  have hTokens : pathTokens [] (package ++ "." ++ name).toList =
      pathTokens [] package.toList ++ [.dot, .name name.toList] := by
    have hChars : (package ++ "." ++ name).toList = package.toList ++ '.' :: name.toList := by simp
    rw [hChars, pathTokens_append, pathTokens_word h [] hSome]
    rfl
  rw [isSome_settlePath?] at hPackage ⊢
  rw [hTokens]
  generalize pathTokens [] package.toList = tokens at hPackage ⊢
  have hNames : (tokens ++ [PathToken.dot, .name name.toList]).dropWhile (· = .dot) =
      if tokens.dropWhile (· = .dot) = [] then [.name name.toList]
      else tokens.dropWhile (· = .dot) ++ [.dot, .name name.toList] := by
    rw [List.dropWhile_append]
    simp
  rw [isSettled, hNames]
  split
  · simp [isDottedName]
  · rename_i hSome
    have hDotted : isDottedName (tokens.dropWhile (· = .dot)) = true := by
      simpa [isSettled, hSome] using hPackage
    have hAll := isDottedName_append hDotted name.toList
    rw [String.ofList_toList] at hAll
    simp [hAll]

end Handlers

end EntityGraph
