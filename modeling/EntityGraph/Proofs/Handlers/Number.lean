import EntityGraph.Proofs.Handlers.Names
import Mathlib.Data.List.TakeWhile

/-!
# Texts of numbers

The text of a finite number starts with a digit, because the shortest digits of a number are never
none, and a sign in it stands before a digit.  An expression reads such a text without any name,
with a plus sign in its exponent or without it.

* `shortestDigits_spec`: the digits of a number, at least one;
* `IsNumeral`: the shape of a number's text;
* `reads_shortest`, `reads_signless`: the names of the two texts of a number.
-/

namespace EntityGraph

open Expression

/-! ## Digits -/

namespace Binary64

theorem gridPoint?_pos {x : Binary64} {num den n d : Nat} {p : Int}
    (h : gridPoint? x num den p n = some d) : d ≠ 0 := by
  simp only [gridPoint?] at h
  generalize (if p - (n : Int) < 0 then (num * Nat.pow 10 (-(p - (n : Int))).toNat, den)
    else (num, den * Nat.pow 10 (p - (n : Int)).toNat)) = grid at h
  obtain ⟨a, b⟩ := grid
  simp only at h
  split at h
  · rename_i hLow _
    simp only [Bool.and_eq_true, bne_iff_ne, ne_eq] at hLow
    split at h
    · exact Option.some.inj h ▸ hLow.2
    · exact Option.some.inj h ▸ Nat.succ_ne_zero _
  · rename_i hLow _
    simp only [Bool.and_eq_true, bne_iff_ne, ne_eq] at hLow
    exact Option.some.inj h ▸ hLow.2
  · exact Option.some.inj h ▸ Nat.succ_ne_zero _
  · cases h

theorem searchDigits_pos (x : Binary64) (num den : Nat) (p : Int) (n fuel : Nat) :
    (searchDigits x num den p n fuel).1 ≠ 0 := by
  induction fuel generalizing n with
  | zero =>
    rw [searchDigits]
    cases hPoint : gridPoint? x num den p n with
    | none => exact Nat.one_ne_zero
    | some d => exact gridPoint?_pos hPoint
  | succ fuel ih =>
    rw [searchDigits]
    cases hPoint : gridPoint? x num den p n with
    | none => exact ih (n + 1)
    | some d => exact gridPoint?_pos hPoint

/-- A positive number has a digit that is not zero. -/
theorem exists_digit {n : Nat} (h : n ≠ 0) : ∃ c ∈ digits n, c ≠ '0' := by
  by_contra hNone
  have hZeros : digits n = List.replicate (digits n).length '0' :=
    List.eq_replicate_of_mem fun c hc => by
      by_contra hDigit
      exact hNone ⟨c, hc, hDigit⟩
  rw [digits, toList_toString] at hZeros
  have hValue : Nat.ofDigitChars 10 (Nat.toDigits 10 n) 0 = 0 := by
    rw [hZeros, Nat.ofDigitChars_replicate_zero, Nat.mul_zero]
  rw [Nat.ofDigitChars_ten_toDigits] at hValue
  exact h hValue

theorem shortestDigits_spec (x : Binary64) (m : Nat) (e : Int) :
    (shortestDigits x m e).1 ≠ [] ∧ ∀ c ∈ (shortestDigits x m e).1, c.isDigit = true := by
  let r := ratio m e
  let d := (searchDigits x r.1 r.2 (pointPlace r.1 r.2) 1 16).1
  have hDigits : (shortestDigits x m e).1 = ((digits d).reverse.dropWhile (· == '0')).reverse := rfl
  obtain ⟨c, hc, hNonzero⟩ := exists_digit (searchDigits_pos x r.1 r.2 (pointPlace r.1 r.2) 1 16)
  rw [hDigits]
  constructor
  · rw [ne_eq, List.reverse_eq_nil_iff, List.dropWhile_eq_nil_iff]
    intro hAll
    have hZero := hAll c (List.mem_reverse.mpr hc)
    exact hNonzero (by simpa using hZero)
  · intro c hc
    have hMem : c ∈ digits d :=
      List.mem_reverse.mp ((List.dropWhile_sublist _).subset (List.mem_reverse.mp hc))
    rw [digits, toList_toString] at hMem
    exact Nat.isDigit_of_mem_toDigits (by decide) (by decide) hMem

end Binary64

/-! ## Numerals -/

/-- The text of a number that is not negative: a digit and parts of a word, maybe with a sign among
them that a digit follows. -/
inductive IsNumeral : List Char → Prop
  | plain {c : Char} {cs : List Char} (hDigit : c.isDigit = true)
      (hParts : IsWord cs) : IsNumeral (c :: cs)
  | scaled {c d sign : Char} {cs ds : List Char} (hDigit : c.isDigit = true)
      (hParts : IsWord cs) (hSign : sign = '+' ∨ sign = '-') (hNext : d.isDigit = true)
      (hRest : IsWord ds) :
      IsNumeral (c :: cs ++ sign :: d :: ds)

namespace IsNumeral

variable {cs : List Char}

theorem reads (h : IsNumeral cs) : Reads cs [] := by
  cases h with
  | plain hDigit hParts => exact .number hDigit hParts
  | @scaled c d sign cs ds hDigit hParts hSign hNext hRest =>
    have hCloses : closes sign = true := by
      rcases hSign with rfl | rfl <;> decide
    exact (Reads.number hDigit hParts).append hCloses (.number hNext hRest)

theorem filter_numeral {c : Char} {ds : List Char} (hDigit : c.isDigit = true) (h : IsWord ds) :
    (c :: ds).filter (· != '+') = c :: ds := by
  refine List.filter_eq_self.mpr (List.forall_mem_cons.mpr ⟨?_, fun d hd => ?_⟩)
  · rw [bne_iff_ne]
    rintro rfl
    cases hDigit
  · rw [bne_iff_ne]
    rintro rfl
    cases List.all_eq_true.mp h _ hd

/-- A plus sign joins two words when it is left out, and what comes out is a number still. -/
theorem reads_filter (h : IsNumeral cs) : Reads (cs.filter (· != '+')) [] := by
  cases h with
  | plain hDigit hParts =>
    rw [filter_numeral hDigit hParts]
    exact .number hDigit hParts
  | @scaled c d sign cs ds hDigit hParts hSign hNext hRest =>
    rw [List.filter_append, filter_numeral hDigit hParts]
    rcases hSign with rfl | rfl
    · rw [List.filter_cons_of_neg (by decide), filter_numeral hNext hRest, List.cons_append]
      have hPart : isWordPart d = true := by simp [isWordPart, Char.isAlphanum, hNext]
      exact .number hDigit (isWord_append.mpr ⟨hParts, isWord_cons.mpr ⟨hPart, hRest⟩⟩)
    · rw [List.filter_cons_of_pos (by decide), filter_numeral hNext hRest]
      exact (IsNumeral.scaled hDigit hParts (.inr rfl) hNext hRest).reads

end IsNumeral

namespace Binary64

theorem exponentText_cons (e : Int) : ∃ sign c cs, (exponentText e).toList = sign :: c :: cs ∧
    (sign = '+' ∨ sign = '-') ∧ c.isDigit = true ∧ IsWord cs := by
  have hSign : (if e < 0 then "-" else "+").toList = [if e < 0 then '-' else '+'] := by
    split <;> rfl
  have hEither : (if e < 0 then '-' else '+') = '+' ∨ (if e < 0 then '-' else '+') = '-' := by
    split <;> decide
  obtain ⟨c, cs, hText, hFirst, hRest⟩ := toDigits_cons e.natAbs
  have hBody : (toString e.natAbs).toList = c :: cs := by rw [toList_toString, hText]
  have hWord : IsWord (c :: cs) := isWord_of_isDigit (List.forall_mem_cons.mpr ⟨hFirst, hRest⟩)
  rw [exponentText, String.toList_append, hSign]
  generalize (if e < 0 then '-' else '+') = sign at hEither ⊢
  split
  · rw [String.toList_append, hBody]
    exact ⟨_, '0', _, rfl, hEither, by decide, hWord⟩
  · rw [hBody]
    exact ⟨_, c, cs, rfl, hEither, hFirst, (isWord_cons.mp hWord).2⟩

/-- Digits with a point among them or an exponent after them are a number. -/
theorem placePoint_isNumeral {ds : List Char} (hSome : ds ≠ [])
    (hDigits : ∀ c ∈ ds, c.isDigit = true) (point : Int) :
    IsNumeral (placePoint ds point).toList := by
  have hZeros : ∀ n, IsWord (List.replicate n '0') := by
    intro n
    refine isWord_of_isDigit fun c hc => ?_
    obtain rfl := List.eq_of_mem_replicate hc
    decide
  have hWord : IsWord ds := isWord_of_isDigit hDigits
  obtain ⟨first, rest, rfl⟩ := List.exists_cons_of_ne_nil hSome
  have hFirst : first.isDigit = true := hDigits first List.mem_cons_self
  have hRest : IsWord rest := (isWord_cons.mp hWord).2
  have hPoint : isWordPart '.' = true := by decide
  unfold placePoint
  split_ifs with hNear hSmall hWhole
  · have hText : ("0." ++ String.ofList (List.replicate (-point).toNat '0' ++ first :: rest)).toList =
        '0' :: '.' :: (List.replicate (-point).toNat '0' ++ first :: rest) := by simp
    rw [hText]
    exact .plain (by decide) (isWord_cons.mpr ⟨hPoint, isWord_append.mpr ⟨hZeros _, hWord⟩⟩)
  · have hText : (String.ofList (first :: rest ++
        List.replicate (point.toNat - (first :: rest).length) '0') ++ ".0").toList =
        first :: (rest ++ (List.replicate (point.toNat - (first :: rest).length) '0' ++
          ['.', '0'])) := by simp
    rw [hText]
    have hFraction : IsWord ['.', '0'] := by decide
    exact .plain hFirst
      (isWord_append.mpr ⟨hRest, isWord_append.mpr ⟨hZeros _, hFraction⟩⟩)
  · obtain ⟨k, hk⟩ : ∃ k, point.toNat = k + 1 := ⟨point.toNat - 1, by omega⟩
    have hText : (String.ofList ((first :: rest).take point.toNat) ++ "." ++
        String.ofList ((first :: rest).drop point.toNat)).toList =
        first :: (rest.take k ++ '.' :: rest.drop k) := by simp [hk]
    rw [hText]
    rw [← List.take_append_drop k rest, isWord_append] at hRest
    exact .plain hFirst (isWord_append.mpr ⟨hRest.1, isWord_cons.mpr ⟨hPoint, hRest.2⟩⟩)
  · obtain ⟨sign, d, ds, hExponent, hSign, hNext, hMore⟩ := exponentText_cons (point - 1)
    obtain ⟨fraction, hFraction, hParts⟩ : ∃ fraction : List Char,
        (if rest.isEmpty then "" else "." ++ String.ofList rest).toList = fraction ∧
          IsWord fraction := by
      refine ⟨_, rfl, ?_⟩
      split
      · exact isWord_of_isDigit (by simp)
      · simpa [isWord_cons] using ⟨hPoint, hRest⟩
    have hText : (String.ofList ((first :: rest).take 1) ++
        (if rest.isEmpty then "" else "." ++ String.ofList rest) ++ "e" ++
          exponentText (point - 1)).toList = first :: (fraction ++ ['e']) ++ sign :: d :: ds := by
      simp only [String.toList_append, hFraction, hExponent]
      simp
    have hNumeral : IsNumeral (first :: (fraction ++ ['e']) ++ sign :: d :: ds) :=
      .scaled hFirst (isWord_append.mpr ⟨hParts, by decide⟩) hSign hNext hMore
    rw [← hText] at hNumeral
    exact hNumeral

/-! ## Names of numbers -/

/-- The names that the text of a number evaluates: only an infinity and a number that is none have
one. -/
def names : Binary64 → List String
  | finite .. => []
  | infinite _ => ["inf"]
  | nan => ["nan"]

/-- The text of a finite number, with a sign before it where it is negative. -/
theorem shortest_eq (s : Bool) (m : Nat) (e : Int) : ∃ cs, IsNumeral cs ∧
    (finite s m e).shortest.toList = (if s then ['-'] else []) ++ cs := by
  by_cases hZero : m = 0
  · refine ⟨['0', '.', '0'], .plain (by decide) (by decide), ?_⟩
    simp only [shortest, hZero, if_true]
    cases s <;> rfl
  · obtain ⟨hSome, hDigits⟩ := shortestDigits_spec (.finite s m e) m e
    refine ⟨_, placePoint_isNumeral hSome hDigits (shortestDigits (.finite s m e) m e).2, ?_⟩
    simp only [shortest, hZero, if_false]
    cases s <;> simp

theorem reads_shortest (x : Binary64) : Reads x.shortest.toList x.names := by
  cases x with
  | nan => exact Reads.word (w := ['n', 'a', 'n']) (by decide)
  | infinite s =>
    have hRead : Reads ['i', 'n', 'f'] ["inf"] := .word (by decide)
    cases s with
    | false => exact hRead
    | true => exact .cons (c := '-') (by decide) hRead
  | finite s m e =>
    obtain ⟨cs, hNumeral, hText⟩ := shortest_eq s m e
    rw [hText]
    cases s with
    | false => exact hNumeral.reads
    | true => exact .cons (by decide) hNumeral.reads

/-- Without the plus sign of its exponent a number has the same names. -/
theorem reads_signless (x : Binary64) :
    Reads (x.shortest.toList.filter (· != '+')) x.names := by
  cases x with
  | nan => exact reads_shortest nan
  | infinite s =>
    cases s with
    | false => exact reads_shortest (infinite false)
    | true => exact reads_shortest (infinite true)
  | finite s m e =>
    obtain ⟨cs, hNumeral, hText⟩ := shortest_eq s m e
    rw [hText, List.filter_append]
    cases s with
    | false => exact hNumeral.reads_filter
    | true => exact .cons (by decide) hNumeral.reads_filter

end Binary64

end EntityGraph
