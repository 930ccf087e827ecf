import EntityGraph.Markup.Scalar
import EntityGraph.Proofs.Failing
import EntityGraph.Proofs.Json.Syntax

/-!
# Numbers as plain scalars

A number without a point and without an exponent is read as an integer, unless it has too many
digits.  One with a point is read as a float, unless its exponent has no sign.  What remains is read
as a text: the numbers with an exponent and no point, and those whose exponent has no sign.

* `Number.reading`: what a number is read as;
* `Number.ofPlain_eq`: the tag that a number implies;
* `Number.intOfPoints_gives`, `Number.floatOfPoints_eq`: the numbers that are read.
-/

namespace EntityGraph.Json

open Markup
open Text (Point)

/-! ## What is read -/

namespace Number

/-- A number with a point whose exponent, if it has one, has a sign. -/
def isPointed (n : Number) : Bool := n.fraction.isSome && n.exponent.all (·.minus.isSome)

/-- A number that is read as an integer has few enough digits. -/
def isShort (n : Number) : Bool := !n.isWhole || n.whole.digits.length ≤ Value.mostDigits

def tag (n : Number) : Tag := if n.isWhole then .int else if n.isPointed then .float else .str

/-- What a number is read as. -/
def reading (n : Number) : Value :=
  if n.isWhole then .int n.integer
  else if n.isPointed then .float n.float
  else .text (String.ofList n.chars)

end Number

/-! ## Characters -/

def numberChars : List Char := "+-.0123456789Ee".toList

/-- What is found of the characters of a list one by one holds of each. -/
theorem forall_of_all {P : Char → Prop} [DecidablePred P] {cs : List Char}
    (h : cs.all (fun c => P c) = true) : ∀ c ∈ cs, P c :=
  fun c hc => of_decide_eq_true (List.all_eq_true.mp h c hc)

theorem Digit.mem_numberChars (d : Digit) : d.char ∈ numberChars := by
  have hAll : ∀ d : Digit, d.char ∈ numberChars := by decide
  exact hAll d

theorem Digit.isDigit (d : Digit) : d.char.isDigit = true := by
  have hAll : ∀ d : Digit, d.char.isDigit = true := by decide
  exact hAll d

theorem Digit.char_ne (d : Digit) {c : Char} (h : c.isDigit = false) : d.char ≠ c := by
  rintro rfl
  exact Bool.noConfusion (d.isDigit.symm.trans h)

theorem Digit.char_eq_zero {d : Digit} : d.char = '0' ↔ d = 0 := by
  have hAll : ∀ d : Digit, d.char = '0' ↔ d = 0 := by decide
  exact hAll d

theorem Digit.succ_char_ne (d : Fin 9) : Digit.char d.succ ≠ '0' :=
  fun h => Fin.succ_ne_zero d (Digit.char_eq_zero.mp h)

theorem Digit.toLower_char (d : Digit) : d.char.toLower = d.char := by
  have hAll : ∀ d : Digit, d.char.toLower = d.char := by decide
  exact hAll d

theorem Digit.not_sign (d : Digit) : (d.char = '+' || d.char = '-') = false := by
  rw [decide_eq_false (d.char_ne rfl), decide_eq_false (d.char_ne rfl), Bool.or_false]

def digitChars (ds : List Digit) : List Char := ds.map Digit.char

theorem isDigit_of_mem {ds : List Digit} {c : Char} (h : c ∈ digitChars ds) : c.isDigit = true := by
  obtain ⟨d, -, rfl⟩ := List.mem_map.mp h
  exact d.isDigit

theorem not_mem_digitChars {c : Char} (h : c.isDigit = false) (ds : List Digit) :
    c ∉ digitChars ds :=
  fun hMem => Bool.noConfusion ((isDigit_of_mem hMem).symm.trans h)

theorem digitChars_mem {ds : List Digit} {c : Char} (h : c ∈ digitChars ds) : c ∈ numberChars := by
  obtain ⟨d, -, rfl⟩ := List.mem_map.mp h
  exact d.mem_numberChars

namespace Number

/-- A number without its sign. -/
def body (n : Number) : List Char :=
  digitChars n.whole.digits ++ (n.fractionChars ++ n.exponentChars)

theorem chars_eq (n : Number) : n.chars = n.signChars ++ n.body := by
  simp [chars, body, digitChars, List.append_assoc]

theorem exists_first (n : Number) : ∃ d rest, n.body = Digit.char d :: rest := by
  unfold body
  cases n.whole with
  | zero => exact ⟨0, _, rfl⟩
  | row first rest => exact ⟨first.succ, _, rfl⟩

theorem mem_numberChars {n : Number} {c : Char} (h : c ∈ n.chars) : c ∈ numberChars := by
  obtain ⟨negative, whole, fraction, exponent⟩ := n
  simp only [chars, signChars, fractionChars, exponentChars, List.mem_append] at h
  rcases h with ((hSign | hWhole) | hFraction) | hExponent
  · cases negative with
    | true =>
      obtain rfl := List.mem_singleton.mp hSign
      decide
    | false => cases hSign
  · exact digitChars_mem hWhole
  · cases fraction with
    | none => cases hFraction
    | some r =>
      rcases List.mem_cons.mp hFraction with rfl | hRow
      · decide
      · exact digitChars_mem hRow
  · cases exponent with
    | none => cases hExponent
    | some e =>
      obtain ⟨upper, minus, row⟩ := e
      simp only [Option.map_some, Option.getD_some, Exponent.chars, Exponent.signChars,
        List.cons_append, List.mem_cons, List.mem_append] at hExponent
      rcases hExponent with rfl | hSign | hRow
      · split <;> decide
      · cases minus with
        | none => cases hSign
        | some minus =>
          obtain rfl := List.mem_singleton.mp hSign
          cases minus <;> decide
      · exact digitChars_mem hRow

end Number

/-! ## Tags -/

theorem atColons_eq {cs acc : List Char} (h : ':' ∉ cs) :
    Tag.atColons ':' acc cs = [acc.reverse ++ cs] := by
  induction cs generalizing acc with
  | nil => simp [Tag.atColons]
  | cons c cs ih =>
    have hNe : (c == ':') = false := by
      simp only [beq_eq_false_iff_ne, ne_eq]
      rintro rfl
      exact h List.mem_cons_self
    rw [Tag.atColons, hNe, if_neg Bool.false_ne_true, ih fun hc => h (.tail _ hc)]
    simp

theorem isSexagesimal_eq_false {first : List Char → Bool} {cs : List Char} (h : ':' ∉ cs) :
    Tag.isSexagesimal first cs = false := by
  rw [Tag.isSexagesimal, atColons_eq h]

theorem isDigits_digitChars {d : Digit} {ds : List Digit} :
    Tag.isDigits (digitChars (d :: ds)) = true := by
  have hRest : (digitChars ds).all Tag.isSpacedDigit = true :=
    List.all_eq_true.mpr fun c hc => by simp [Tag.isSpacedDigit, isDigit_of_mem hc]
  show (d.char.isDigit && (digitChars ds).all Tag.isSpacedDigit) = true
  rw [d.isDigit, hRest]
  rfl

theorem Row.isRow (r : Row) : Tag.isRow Char.isDigit (digitChars r.digits) = true := by
  have hAll : (digitChars r.digits).all Char.isDigit = true :=
    List.all_eq_true.mpr fun c hc => isDigit_of_mem hc
  rw [Tag.isRow, hAll]
  rfl

namespace Exponent

def letter (e : Exponent) : Char := if e.upper then 'E' else 'e'

theorem letter_cases (e : Exponent) : e.letter = 'e' ∨ e.letter = 'E' := by
  unfold letter
  split
  · exact .inr rfl
  · exact .inl rfl

theorem chars_eq (e : Exponent) :
    e.chars = e.letter :: (e.signChars ++ digitChars e.row.digits) := rfl

/-- Only an exponent with a sign is one of a float. -/
theorem isExponent_eq (e : Exponent) : Tag.isExponent e.chars = e.minus.isSome := by
  have hLetter : (e.letter = 'e' || e.letter = 'E') = true := by
    rcases e.letter_cases with h | h <;> simp [h]
  rw [chars_eq, signChars]
  cases e.minus with
  | none =>
    simp [digitChars, Row.digits, Tag.isExponent, Digit.not_sign]
  | some minus =>
    have hSign :
        ((if minus then '-' else '+') = '+' || (if minus then '-' else '+') = '-') = true := by
      cases minus <;> decide
    show ((_ && _) && Tag.isRow Char.isDigit (digitChars e.row.digits)) = true
    rw [hLetter, hSign, e.row.isRow]
    rfl

end Exponent

namespace Number

variable {n : Number}

theorem unsigned_chars (n : Number) : Tag.unsigned n.chars = n.body := by
  obtain ⟨d, rest, hBody⟩ := n.exists_first
  rw [chars_eq, signChars, hBody]
  split
  · rfl
  · show (if _ then _ else _) = _
    rw [d.not_sign]
    rfl

theorem fractionChars_none (h : n.fraction = none) : n.fractionChars = [] := by
  rw [fractionChars, h]

theorem exponentChars_eq (n : Number) :
    n.exponentChars = [] ∧ n.exponent = none ∨
      ∃ e, n.exponent = some e ∧ n.exponentChars = e.chars := by
  rw [exponentChars]
  cases n.exponent with
  | none => exact .inl ⟨rfl, rfl⟩
  | some e => exact .inr ⟨e, rfl, rfl⟩

/-- What follows the digits of a number. -/
theorem head_exponentChars {c : Char} (h : n.exponentChars.head? = some c) : c = 'e' ∨ c = 'E' := by
  rcases n.exponentChars_eq with ⟨hNone, -⟩ | ⟨e, -, hSome⟩
  · rw [hNone] at h
    cases h
  · rw [hSome, e.chars_eq] at h
    exact Option.some.inj h ▸ e.letter_cases

theorem colon_not_mem {cs : List Char} (h : ∀ c ∈ cs, c ∈ numberChars) : ':' ∉ cs :=
  fun hc => absurd (h ':' hc) (by decide)

theorem body_mem {c : Char} (h : c ∈ n.body) : c ∈ numberChars :=
  mem_numberChars (by rw [chars_eq]; exact List.mem_append_right _ h)

theorem point_not_mem_exponentChars (n : Number) : '.' ∉ n.exponentChars := by
  rcases n.exponentChars_eq with ⟨hNone, -⟩ | ⟨e, -, hSome⟩
  · simp [hNone]
  · have hLetter : '.' ≠ e.letter := by
      rcases e.letter_cases with h | h <;> rw [h] <;> decide
    have hSign : '.' ∉ e.signChars := by
      rw [Exponent.signChars]
      rcases e.minus with _ | _ | _ <;> simp
    simp [hSome, e.chars_eq, hLetter, hSign, not_mem_digitChars]

theorem exists_digits (w : Whole) : ∃ d ds, w.digits = d :: ds := by
  cases w with
  | zero => exact ⟨0, [], rfl⟩
  | row first rest => exact ⟨first.succ, rest, rfl⟩

/-- Nothing that follows digits is a digit. -/
theorem dropWhile_digits {p : Char → Bool} (hDigit : ∀ c, c.isDigit = true → p c = true)
    (ds : List Digit) {cs : List Char} (hcs : ∀ c, cs.head? = some c → p c = false) :
    (digitChars ds ++ cs).dropWhile p = cs ∧ (digitChars ds ++ cs).takeWhile p = digitChars ds := by
  have hAll : ∀ c ∈ digitChars ds, p c = true := fun c hc => hDigit c (isDigit_of_mem hc)
  rw [List.dropWhile_append_of_pos hAll, List.takeWhile_append_of_pos hAll]
  cases cs with
  | nil => simp
  | cons c cs => simp [hcs c rfl]

theorem isFraction_eq (n : Number) (r : Row) :
    Tag.isFraction (digitChars r.digits ++ n.exponentChars) = n.exponent.all (·.minus.isSome) := by
  have hHead : ∀ c, n.exponentChars.head? = some c → Tag.isSpacedDigit c = false := by
    intro c hc
    rcases head_exponentChars hc with rfl | rfl <;> decide
  rw [Tag.isFraction,
    (dropWhile_digits (fun c hc => by simp [Tag.isSpacedDigit, hc]) r.digits hHead).1]
  rcases n.exponentChars_eq with ⟨hChars, hNone⟩ | ⟨e, hSome, hChars⟩
  · rw [hChars, hNone]
    rfl
  · rw [hChars, hSome, e.isExponent_eq]
    rfl

/-- A number with a point is one of a float. -/
theorem isFloat_eq (n : Number) : Tag.isFloat n.chars = n.isPointed := by
  have hPointed : Tag.isFloat n.chars = Tag.isPointed n.body := by
    obtain ⟨d, rest, hBody⟩ := n.exists_first
    have hPoint : d.char ≠ '.' := d.char_ne rfl
    unfold Tag.isFloat
    rw [unsigned_chars, hBody]
    dsimp only
    split
    · rename_i hEq
      exact absurd (List.cons.inj hEq).1 hPoint
    · rfl
  rw [hPointed, Tag.isPointed]
  cases hFraction : n.fraction with
  | none =>
    have hNone : ∀ c ∈ n.body, (c != '.') = true := by
      intro c hc
      rw [body, fractionChars_none hFraction, List.nil_append] at hc
      rcases List.mem_append.mp hc with hDigit | hExponent
      · exact bne_iff_ne.mpr fun h => not_mem_digitChars rfl _ (h ▸ hDigit)
      · exact bne_iff_ne.mpr fun h => point_not_mem_exponentChars n (h ▸ hExponent)
    have hAll : n.body.takeWhile (· != '.') = n.body := by
      rw [← List.append_nil n.body, List.takeWhile_append_of_pos hNone, List.takeWhile_nil]
    simp [hAll, isPointed, hFraction]
  | some r =>
    have hBody : n.body =
        digitChars n.whole.digits ++ '.' :: (digitChars r.digits ++ n.exponentChars) := by
      simp [body, fractionChars, hFraction, digitChars]
    have hWhole : n.body.takeWhile (· != '.') = digitChars n.whole.digits := by
      rw [hBody]
      refine (dropWhile_digits (fun c hc => bne_iff_ne.mpr ?_) _ fun c hc => ?_).2
      · rintro rfl
        cases hc
      · obtain rfl := Option.some.inj hc
        rfl
    obtain ⟨d, ds, hDigits⟩ := exists_digits n.whole
    have hColon : ':' ∉ digitChars n.whole.digits :=
      colon_not_mem fun c hc => digitChars_mem hc
    rw [hWhole, hBody, List.drop_left]
    simp only [isFraction_eq, isSexagesimal_eq_false hColon, Bool.false_and, Bool.or_false,
      isPointed, hFraction, Option.isSome_some, Bool.true_and]
    rw [hDigits, isDigits_digitChars, Bool.true_and]

/-- What follows the first digits of a number. -/
theorem tail_cases (n : Number) :
    n.fractionChars ++ n.exponentChars = [] ∧ n.isWhole = true ∨
      ∃ c rest, n.fractionChars ++ n.exponentChars = c :: rest ∧ n.isWhole = false ∧
        (c = '.' ∨ c = 'e' ∨ c = 'E') := by
  unfold fractionChars isWhole
  cases n.fraction with
  | some r => exact .inr ⟨'.', _, rfl, rfl, .inl rfl⟩
  | none =>
    rcases n.exponentChars_eq with ⟨hChars, hNone⟩ | ⟨e, hSome, hChars⟩
    · exact .inl ⟨hChars, by rw [hNone]; rfl⟩
    · exact .inr ⟨e.letter, _, hChars, by rw [hSome]; rfl, .inr e.letter_cases⟩

theorem isInt_nonzero {cs rest : List Char} {c : Char} (hBody : Tag.unsigned cs = c :: rest)
    (hc : c ≠ '0') (hColon : ':' ∉ c :: rest) :
    Tag.isInt cs = (c.isDigit && rest.all Tag.isSpacedDigit) := by
  have hNone : Tag.isSexagesimal Tag.startsNonzero (c :: rest) = false :=
    isSexagesimal_eq_false hColon
  unfold Tag.isInt
  rw [hBody]
  dsimp only
  split
  all_goals try (rename_i hEq; exact absurd (List.cons.inj hEq).1 hc)
  simp [hNone, Tag.startsNonzero, Tag.isDigits, hc]

/-- A number without point and exponent is an integer. -/
theorem isInt_eq (n : Number) : Tag.isInt n.chars = n.isWhole := by
  have hColon : ':' ∉ n.body := colon_not_mem fun c hc => body_mem hc
  have hTail := n.tail_cases
  rw [body] at hColon
  have hUnsigned := n.unsigned_chars
  rw [body] at hUnsigned
  cases hDigits : n.whole with
  | zero =>
    rw [hDigits] at hUnsigned
    rcases hTail with ⟨hEq, hWhole⟩ | ⟨c, rest, hEq, hWhole, hc⟩
    · rw [Tag.isInt, hUnsigned, hEq, hWhole]
      rfl
    · rw [Tag.isInt, hUnsigned, hEq, hWhole]
      rcases hc with rfl | rfl | rfl <;> rfl
  | row first rest =>
    have hFirst : Digit.char first.succ ≠ '0' := Digit.succ_char_ne first
    have hAll : (digitChars rest).all Tag.isSpacedDigit = true :=
      List.all_eq_true.mpr fun c hc => by simp [Tag.isSpacedDigit, isDigit_of_mem hc]
    rw [hDigits] at hUnsigned hColon
    have hUnsigned : Tag.unsigned n.chars = Digit.char first.succ ::
        (digitChars rest ++ (n.fractionChars ++ n.exponentChars)) := hUnsigned
    rw [isInt_nonzero hUnsigned hFirst hColon, Digit.isDigit, Bool.true_and, List.all_append, hAll,
      Bool.true_and]
    rcases hTail with ⟨hEq, hWhole⟩ | ⟨c, rest, hEq, hWhole, hc⟩
    · rw [hEq, hWhole]
      rfl
    · rw [hEq, hWhole]
      rcases hc with rfl | rfl | rfl <;> rfl

/-- A word that is no number: it starts with none of their characters. -/
theorem chars_not_mem (words : List (List Char))
    (h : words.all (fun w => !(w.head?.any numberChars.contains)) = true) : n.chars ∉ words := by
  intro hMem
  have hNot := List.all_eq_true.mp h _ hMem
  obtain ⟨c, rest, hChars⟩ : ∃ c rest, n.chars = c :: rest := by
    obtain ⟨d, rest, hBody⟩ := n.exists_first
    rw [chars_eq, hBody]
    cases n.signChars with
    | nil => exact ⟨_, _, rfl⟩
    | cons c cs => exact ⟨_, _, rfl⟩
  have hFirst : c ∈ numberChars := mem_numberChars (n := n) (by simp [hChars])
  rw [hChars] at hNot
  simp [hFirst] at hNot

theorem read?_eq_none {cs : List Char}
    (h : ∀ year rest, cs = year ++ '-' :: rest → year ≠ [] → ∃ c ∈ year, c.isDigit = false) :
    Timestamp.read? cs = none := by
  unfold Timestamp.read?
  dsimp only
  split
  · rfl
  · rename_i hYear
    simp only [ne_eq, Bool.or_eq_true, decide_eq_true_eq, Bool.not_eq_true', not_or,
      Decidable.not_not, Bool.not_eq_false] at hYear
    have hAfter : after? '-' (cs.drop 4) = none := by
      cases hDrop : cs.drop 4 with
      | nil => rfl
      | cons c rest =>
        have hHyphen : c ≠ '-' := by
          rintro rfl
          have hSome : cs.take 4 ≠ [] := List.length_pos_iff.mp (by omega)
          obtain ⟨d, hd, hOther⟩ :=
            h (cs.take 4) rest (by rw [← hDrop, List.take_append_drop]) hSome
          have hDigit := List.all_eq_true.mp hYear.2 d hd
          rw [hOther] at hDigit
          cases hDigit
        simp [after?, hHyphen]
    simp [hAfter]

/-- A number with an exponent is no date: a hyphen comes first, or after a letter. -/
theorem read_none (h : n.exponent.isSome) : Timestamp.read? n.chars = none := by
  obtain ⟨e, hSome⟩ := Option.isSome_iff_exists.mp h
  have hChars : n.chars = (n.signChars ++ digitChars n.whole.digits ++ n.fractionChars) ++
      e.letter :: (e.signChars ++ digitChars e.row.digits) := by
    rw [← e.chars_eq, chars, exponentChars, hSome]
    rfl
  have hLetter : e.letter.isDigit = false ∧ e.letter ≠ '-' := by
    rcases e.letter_cases with h | h <;> rw [h] <;> decide
  refine read?_eq_none fun year rest hEq hYear => ?_
  rw [hChars] at hEq
  rcases List.append_eq_append_iff.mp hEq with ⟨cs, rfl, hRest⟩ | ⟨cs, hFirst, hRest⟩
  · -- the hyphen comes after the letter
    cases cs with
    | nil => exact absurd (List.cons.inj hRest).1 hLetter.2
    | cons c cs => exact ⟨c, by simp, (List.cons.inj hRest).1 ▸ hLetter.1⟩
  · -- the hyphen comes before the letter, so it is the sign
    cases cs with
    | nil => exact absurd (List.cons.inj hRest).1.symm hLetter.2
    | cons c cs =>
      obtain rfl : '-' = c := (List.cons.inj hRest).1
      obtain ⟨d, year, rfl⟩ := List.exists_cons_of_ne_nil hYear
      cases hNegative : n.negative with
      | true =>
        rw [signChars, hNegative] at hFirst
        exact ⟨d, List.mem_cons_self, (List.cons.inj hFirst).1 ▸ by decide⟩
      | false =>
        have hMem : '-' ∈ digitChars n.whole.digits ++ n.fractionChars := by
          rw [signChars, hNegative] at hFirst
          simp only [Bool.false_eq_true, if_false, List.nil_append] at hFirst
          simp [hFirst]
        rcases List.mem_append.mp hMem with hDigit | hFraction
        · exact absurd hDigit (not_mem_digitChars rfl _)
        · rw [fractionChars] at hFraction
          split at hFraction
          · cases hFraction
          · rcases List.mem_cons.mp hFraction with hPoint | hDigit
            · exact absurd hPoint (by decide)
            · exact absurd hDigit (not_mem_digitChars rfl _)

theorem ofPlain_eq (n : Number) : Tag.ofPlain n.chars = n.tag := by
  have hSome : n.chars ≠ [] := by
    intro hEmpty
    exact chars_not_mem [[]] rfl (by rw [hEmpty]; exact List.mem_cons_self)
  have hFeed : Tag.withoutFeed n.chars = n.chars := by
    have hLast : n.chars.getLast? ≠ some '\n' := fun hLast =>
      absurd (mem_numberChars (List.mem_of_getLast? hLast)) (by decide)
    simp [Tag.withoutFeed, hLast]
  have hBool := chars_not_mem (n := n) Tag.boolWords (by decide)
  have hNull := chars_not_mem (n := n) Tag.nullWords (by decide)
  have hMerge := chars_not_mem (n := n) [['<', '<'], ['=']] (by decide)
  have hMark : n.chars.all (fun c => "!&*".toList.contains c) = false := by
    obtain ⟨c, hc⟩ := List.exists_mem_of_ne_nil _ hSome
    have hNot : ∀ c ∈ numberChars, "!&*".toList.contains c = false := forall_of_all (by decide)
    exact List.all_eq_false.mpr ⟨c, hc, by simp only [hNot c (mem_numberChars hc)]; decide⟩
  have hEmpty : n.chars.isEmpty = false := by simpa using hSome
  have hMerge' : n.chars ≠ ['<', '<'] ∧ n.chars ≠ ['='] := by simpa using hMerge
  have hContains : ∀ {words : List (List Char)}, n.chars ∉ words → words.contains n.chars = false :=
    fun h => by simpa using h
  rw [Tag.ofPlain, hEmpty, hFeed, Tag.implied?, isFloat_eq, isInt_eq, hContains hBool,
    hContains hNull, hMark, if_neg hMerge'.1, if_neg hMerge'.2, tag]
  obtain ⟨negative, whole, fraction, exponent⟩ := n
  cases fraction with
  | none =>
    cases exponent with
    | none => rfl
    | some e =>
      have hTime := read_none (n := ⟨negative, whole, none, some e⟩) rfl
      simp [isPointed, isWhole, Timestamp.isImplicit, hTime]
  | some r =>
    cases exponent with
    | none => rfl
    | some e =>
      have hTime := read_none (n := ⟨negative, whole, some r, some e⟩) rfl
      cases hMinus : e.minus <;> simp [isPointed, isWhole, Timestamp.isImplicit, hTime, hMinus]

end Number

/-! ## Numbers as code points -/

section

variable {cs : List Char} (hcs : ∀ c ∈ cs, c ∈ numberChars)
include hcs

theorem withoutUnderscores_eq : withoutUnderscores (pointsOf cs) = pointsOf cs := by
  have hNot : ∀ c ∈ numberChars, (Point.char c != .char '_') = true := forall_of_all (by decide)
  refine List.filter_eq_self.mpr fun p hp => ?_
  obtain ⟨c, hc, rfl⟩ := List.mem_map.mp hp
  exact hNot c (hcs c hc)

theorem plainNumber_eq : plainNumber (pointsOf cs) = cs := by
  have hPlain : ∀ c ∈ numberChars, plainChar (.char c) = c ∧ isNumberBlank c = false :=
      forall_of_all (by decide)
  have hMap : (pointsOf cs).map plainChar = cs := by
    rw [pointsOf, List.map_map]
    exact (List.map_congr_left fun c hc => (hPlain c (hcs c hc)).1).trans (List.map_id cs)
  have hDrop : ∀ ds : List Char, (∀ c ∈ ds, c ∈ cs) → ds.dropWhile isNumberBlank = ds := by
    intro ds hds
    cases ds with
    | nil => rfl
    | cons d ds =>
      exact List.dropWhile_cons_of_neg
        (by simp [(hPlain d (hcs d (hds d List.mem_cons_self))).2])
  rw [plainNumber, hMap, hDrop cs fun c hc => hc,
    hDrop cs.reverse fun c hc => List.mem_reverse.mp hc, List.reverse_reverse]

theorem contains_colon : (pointsOf cs).contains (.char ':') = false := by
  have hNot : ∀ c ∈ numberChars, Point.char c ≠ .char ':' := forall_of_all (by decide)
  simp only [List.contains_eq_mem, decide_eq_false_iff_not]
  intro hMem
  obtain ⟨c, hc, hEq⟩ := List.mem_map.mp hMem
  exact hNot c (hcs c hc) hEq

end

theorem digitsIn?_eq (d : Digit) (ds : List Digit) :
    digitsIn? 10 (digitChars (d :: ds)) = some (numberOf (d :: ds)) := by
  have hDigit : ∀ d : Digit, digitValue? d.char = some d.val ∧ d.val < 10 := by decide
  have hFold : ∀ (ds : List Digit) (n : Nat),
      (digitChars ds).foldlM (fun n c => (digitValue? c).bind fun d =>
        if d < 10 then some (n * 10 + d) else none) n =
      some (ds.foldl (fun n d => n * 10 + d.val) n) := by
    intro ds
    induction ds with
    | nil => exact fun _ => rfl
    | cons d ds ih =>
      intro n
      obtain ⟨hValue, hLess⟩ := hDigit d
      have hStep : ((digitValue? d.char).bind fun d =>
          if d < 10 then some (n * 10 + d) else none) = some (n * 10 + d.val) := by
        rw [hValue, Option.bind_some, if_pos hLess]
      rw [digitChars, List.map_cons, List.foldlM_cons, hStep]
      exact ih _
  exact hFold (d :: ds) 0

theorem numberOf_digitChars (ds : List Digit) : Markup.numberOf (digitChars ds) = numberOf ds := by
  have hDigit : ∀ d : Digit, d.char.toNat - 48 = d.val := by decide
  simp only [Markup.numberOf, numberOf, digitChars, List.foldl_map, hDigit]

namespace Number

variable {n : Number}

theorem splitSign_digit (d : Digit) (cs : List Char) :
    splitSign '-' '+' (d.char :: cs) = (false, d.char :: cs) := by
  have hMinus : (d.char == '-') = false := beq_false_of_ne (d.char_ne rfl)
  have hPlus : (d.char == '+') = false := beq_false_of_ne (d.char_ne rfl)
  rw [splitSign, hMinus, hPlus]
  rfl

/-- A sign before a digit. -/
theorem splitSign_points (negative : Bool) (d : Digit) (cs : List Char) :
    splitSign (.char '-') (.char '+')
        (pointsOf ((if negative then ['-'] else []) ++ d.char :: cs)) =
      (negative, pointsOf (d.char :: cs)) := by
  have hNot : ∀ c : Char, c.isDigit = false → (Point.char d.char == .char c) = false :=
    fun c hc => beq_false_of_ne fun hEq => d.char_ne hc (Point.char.inj hEq)
  cases negative with
  | true => rfl
  | false =>
    show splitSign (.char '-') (.char '+') (.char d.char :: pointsOf cs) = _
    rw [splitSign, hNot '-' rfl, hNot '+' rfl]
    rfl

theorem intIn_gives {d : Digit} {ds : List Digit} (hd : d ≠ 0) :
    GivesIf (decide ((d :: ds).length ≤ Value.mostDigits)) (numberOf (d :: ds) : Int)
      (intIn 10 (pointsOf (digitChars (d :: ds)))) := by
  have hFirst : d.char ≠ '0' := fun h => hd (Digit.char_eq_zero.mp h)
  have hMark : withoutMark 10 (digitChars (d :: ds)) = digitChars (d :: ds) := by
    unfold withoutMark
    split
    · rename_i hEq
      exact absurd (List.cons.inj hEq).1 hFirst
    · rfl
  have hCount : ((digitChars (d :: ds)).takeWhile Char.isDigit).length = (d :: ds).length := by
    have hNone : ∀ c, ([] : List Char).head? = some c → c.isDigit = false := nofun
    have hAll := (dropWhile_digits (p := Char.isDigit) (fun c hc => hc) (d :: ds) hNone).2
    rw [List.append_nil] at hAll
    rw [hAll, digitChars, List.length_map]
  have hSign : splitSign '-' '+' (digitChars (d :: ds)) = (false, digitChars (d :: ds)) :=
    splitSign_digit d (digitChars ds)
  simp only [intIn, plainNumber_eq fun c hc => digitChars_mem hc, hSign, hMark, hCount,
    digitsIn?_eq]
  refine ⟨fun hShort => ?_, fun hLong => ?_⟩
  · rw [if_neg (by simpa using hShort)]
    rfl
  · exact ⟨_, if_pos (by simpa using hLong)⟩

theorem magnitudeOf_gives (w : Whole) :
    GivesIf (decide (w.digits.length ≤ Value.mostDigits)) (numberOf w.digits : Int)
      (magnitudeOf (pointsOf (digitChars w.digits))) := by
  cases w with
  | zero => exact .of_eq rfl
  | row first rest =>
    have hFirst : Digit.char first.succ ≠ '0' := Digit.succ_char_ne first
    have hMem : ∀ c ∈ digitChars (first.succ :: rest), c ∈ numberChars :=
      fun c hc => digitChars_mem hc
    have hColon := contains_colon hMem
    have hPlain : magnitudeOf (pointsOf (digitChars (first.succ :: rest))) =
        intIn 10 (pointsOf (digitChars (first.succ :: rest))) := by
      unfold magnitudeOf
      split
      all_goals try (rename_i hEq; exact absurd (Point.char.inj (List.cons.inj hEq).1) hFirst)
      · rename_i hEq
        cases hEq
      · exact if_neg (by rw [hColon]; exact Bool.false_ne_true)
    rw [Whole.digits, hPlain]
    exact intIn_gives (Fin.succ_ne_zero first)

/-- An integer is read as what it denotes, unless it has too many digits. -/
theorem intOfPoints_gives (h : n.isWhole = true) :
    GivesIf n.isShort n.integer (intOfPoints (pointsOf n.chars)) := by
  have hBody : n.body = digitChars n.whole.digits := by
    rcases n.tail_cases with ⟨hTail, -⟩ | ⟨-, -, -, hWhole, -⟩
    · rw [body, hTail, List.append_nil]
    · rw [h] at hWhole
      cases hWhole
  obtain ⟨d, rest, hFirst⟩ := n.exists_first
  have hSign : splitSign (.char '-') (.char '+') (pointsOf n.chars) =
      (n.negative, pointsOf n.body) := by
    rw [n.chars_eq, hFirst]
    exact splitSign_points n.negative d rest
  have hSome : (pointsOf n.chars).isEmpty = false := by
    rw [n.chars_eq, hFirst, pointsOf]
    simp
  have hInt : intOfPoints (pointsOf n.chars) =
      (magnitudeOf (pointsOf n.body)).map fun i => if n.negative then -i else i := by
    simp only [intOfPoints, withoutUnderscores_eq fun c hc => mem_numberChars hc, hSign, hSome,
      Bool.false_eq_true, if_false]
  have hShort : n.isShort = decide (n.whole.digits.length ≤ Value.mostDigits) := by
    rw [isShort, h]
    rfl
  rw [hInt, hBody, hShort]
  exact (magnitudeOf_gives n.whole).map fun i => if n.negative then -i else i

/-! ## Floats -/

theorem toLower_mem {cs : List Char} (hcs : ∀ c ∈ cs, c ∈ numberChars) :
    ∀ c ∈ cs.map Char.toLower, c ∈ numberChars := by
  have hAll : ∀ c ∈ numberChars, c.toLower ∈ numberChars := forall_of_all (by decide)
  intro c hc
  obtain ⟨d, hd, rfl⟩ := List.mem_map.mp hc
  exact hAll d (hcs d hd)

theorem toLower_points {cs : List Char} (hcs : ∀ c ∈ cs, c ∈ numberChars) :
    Text.toLower (pointsOf cs) = pointsOf (cs.map Char.toLower) := by
  have hAscii : ∀ c ∈ numberChars, c ≠ 'İ' ∧ c ≠ 'Σ' ∧ c.toNat < 0x80 := forall_of_all (by decide)
  have hGo : ∀ before, Text.toLower.go before (pointsOf cs) = pointsOf (cs.map Char.toLower) := by
    induction cs with
    | nil => exact fun _ => rfl
    | cons c cs ih =>
      intro before
      obtain ⟨hDotted, hSigma, hSmall⟩ := hAscii c (hcs c List.mem_cons_self)
      show Text.lowerPoint before (.char c) (pointsOf cs) ++ Text.toLower.go _ (pointsOf cs) = _
      rw [ih fun d hd => hcs d (.tail _ hd)]
      simp only [Text.lowerPoint, hDotted, hSigma, if_false, Text.lowerChar, hSmall, if_true]
      rfl
  exact hGo []

theorem toLower_digits (ds : List Digit) : (digitChars ds).map Char.toLower = digitChars ds := by
  simp [digitChars, Digit.toLower_char]

/-- An exponent in small letters. -/
def smallExponent (n : Number) : List Char :=
  match n.exponent with
  | none => []
  | some e => 'e' :: (e.signChars ++ digitChars e.row.digits)

theorem toLower_body (n : Number) :
    n.body.map Char.toLower =
      digitChars n.whole.digits ++ (n.fractionChars ++ n.smallExponent) := by
  have hFraction : n.fractionChars.map Char.toLower = n.fractionChars := by
    rw [fractionChars]
    cases n.fraction with
    | none => rfl
    | some r => exact congrArg (List.cons '.') (toLower_digits r.digits)
  have hExponent : n.exponentChars.map Char.toLower = n.smallExponent := by
    rw [exponentChars, smallExponent]
    cases n.exponent with
    | none => rfl
    | some e =>
      have hLetter : e.letter.toLower = 'e' := by
        rcases e.letter_cases with h | h <;> rw [h] <;> rfl
      have hSign : e.signChars.map Char.toLower = e.signChars := by
        rw [Exponent.signChars]
        rcases e.minus with _ | _ | _ <;> rfl
      show (e.letter :: (e.signChars ++ digitChars e.row.digits)).map Char.toLower = _
      rw [List.map_cons, List.map_append, hLetter, hSign, toLower_digits]
  rw [body, List.map_append, List.map_append, toLower_digits, hFraction, hExponent]

theorem exponent?_eq (n : Number) :
    exponent? n.smallExponent = some ((n.exponent.map Exponent.value).getD 0) := by
  rw [smallExponent]
  cases n.exponent with
  | none => rfl
  | some e =>
    obtain ⟨upper, minus, first, rest⟩ := e
    have hSign : splitSign '-' '+' (Exponent.signChars ⟨upper, minus, first, rest⟩ ++
        digitChars (first :: rest)) = (decide (minus = some true), digitChars (first :: rest)) := by
      rcases minus with _ | _ | _
      · exact splitSign_digit first (digitChars rest)
      · rfl
      · rfl
    show exponent? ('e' :: (Exponent.signChars ⟨upper, minus, first, rest⟩ ++
      digitChars (first :: rest))) = some (Exponent.value ⟨upper, minus, first, rest⟩)
    simp only [exponent?, hSign, digitsIn?_eq, decide_true, Bool.true_or, if_true,
      decide_eq_true_eq]
    rfl

theorem head_smallExponent {c : Char} (h : n.smallExponent.head? = some c) : c = 'e' := by
  rw [smallExponent] at h
  cases hSome : n.exponent with
  | none =>
    rw [hSome] at h
    cases h
  | some e =>
    rw [hSome] at h
    exact (Option.some.inj h).symm

theorem head_tail {c : Char} (h : (n.fractionChars ++ n.smallExponent).head? = some c) :
    c.isDigit = false := by
  rw [fractionChars] at h
  cases hFraction : n.fraction with
  | none =>
    rw [hFraction] at h
    rw [head_smallExponent h]
    decide
  | some r =>
    rw [hFraction] at h
    obtain rfl : '.' = c := Option.some.inj h
    decide

/-- The digits before and after the point, with the exponent that puts the point after them. -/
theorem decimal?_eq (n : Number) :
    decimal? false (n.body.map Char.toLower) =
      some (Binary64.ofDecimal false (numberOf (n.whole.digits ++ n.places))
        ((n.exponent.map Exponent.value).getD 0 - (n.places.length : Int))) := by
  have hTail : ∀ c, (n.fractionChars ++ n.smallExponent).head? = some c → c.isDigit = false :=
    fun c hc => head_tail hc
  have hWhole := (dropWhile_digits (p := Char.isDigit) (fun c hc => hc) n.whole.digits hTail).2
  obtain ⟨d, ds, hDigits⟩ := exists_digits n.whole
  have hSome : (digitChars n.whole.digits).isEmpty = false := by rw [hDigits]; rfl
  rw [toLower_body]
  simp only [decimal?, hWhole, List.drop_left, hSome, Bool.false_and, Bool.false_eq_true, if_false]
  cases hFraction : n.fraction with
  | none =>
    have hPlaces : n.places = [] := by rw [places, hFraction]; rfl
    have hValue := n.exponent?_eq
    rw [fractionChars_none hFraction, List.nil_append, hPlaces]
    unfold smallExponent at hValue ⊢
    cases hSome : n.exponent with
    | none => simp [exponent?, numberOf_digitChars]
    | some e =>
      rw [hSome] at hValue
      dsimp only at hValue ⊢
      simp [hValue, numberOf_digitChars]
  | some r =>
    have hPlaces : n.places = r.digits := by rw [places, hFraction]; rfl
    have hRow := (dropWhile_digits (p := Char.isDigit) (fun c hc => hc) r.digits
      fun c hc => by rw [head_smallExponent (n := n) hc]; decide).2
    have hFractionChars : n.fractionChars = '.' :: digitChars r.digits := by
      rw [fractionChars, hFraction]
      rfl
    rw [hFractionChars, hPlaces]
    simp only [List.cons_append, hRow, List.drop_left, exponent?_eq, Option.map_some,
      ← numberOf_digitChars]
    simp [digitChars]

theorem neg_ofDecimal (digits : Nat) (exponent : Int) :
    (Binary64.ofDecimal false digits exponent).neg = Binary64.ofDecimal true digits exponent := by
  have hRatio (num den) :
      (Binary64.ofRatio false num den).neg = Binary64.ofRatio true num den := by
    unfold Binary64.ofRatio
    dsimp only
    split
    · rfl
    · split
      · exact apply_ite _ _ _ _
      · exact apply_ite _ _ _ _
  unfold Binary64.ofDecimal
  dsimp only
  split
  · rfl
  · split
    · rfl
    · split
      · rfl
      · split
        · exact hRatio _ _
        · exact hRatio _ _

theorem exists_small (n : Number) :
    ∃ d rest, n.body.map Char.toLower = Digit.char d :: rest := by
  obtain ⟨d, rest, hBody⟩ := n.exists_first
  exact ⟨d, rest.map Char.toLower, by rw [hBody, List.map_cons, d.toLower_char]⟩

theorem small_mem {c : Char} (h : c ∈ n.body.map Char.toLower) : c ∈ numberChars :=
  toLower_mem (fun _ hd => body_mem hd) c h

theorem floatIn_body (n : Number) : floatIn (pointsOf (n.body.map Char.toLower)) =
    .ok (Binary64.ofDecimal false (numberOf (n.whole.digits ++ n.places))
      ((n.exponent.map Exponent.value).getD 0 - (n.places.length : Int))) := by
  obtain ⟨d, rest, hSmall⟩ := n.exists_small
  have hSign : splitSign '-' '+' (n.body.map Char.toLower) = (false, n.body.map Char.toLower) := by
    rw [hSmall]
    exact splitSign_digit d rest
  have hWords : n.body.map Char.toLower ≠ "inf".toList ∧
      n.body.map Char.toLower ≠ "infinity".toList ∧ n.body.map Char.toLower ≠ "nan".toList := by
    rw [hSmall]
    exact ⟨fun h => d.char_ne rfl (List.cons.inj h).1, fun h => d.char_ne rfl (List.cons.inj h).1,
      fun h => d.char_ne rfl (List.cons.inj h).1⟩
  simp only [floatIn, plainNumber_eq fun c hc => small_mem hc, hSign, hWords, decimal?_eq]
  simp

/-- A number is neither infinite nor undefined, and has no parts between colons. -/
theorem floatMagnitude_body (n : Number) : floatMagnitude (pointsOf (n.body.map Char.toLower)) =
    floatIn (pointsOf (n.body.map Char.toLower)) := by
  obtain ⟨d, rest, hSmall⟩ := n.exists_small
  have hWord : ∀ w : List Char, isWord (String.ofList ('.' :: w))
      (pointsOf (n.body.map Char.toLower)) = false := by
    intro w
    rw [isWord, String.toList_ofList, hSmall]
    exact beq_false_of_ne fun h => d.char_ne rfl (Point.char.inj (List.cons.inj h).1)
  have hInf : isWord ".inf" (pointsOf (n.body.map Char.toLower)) = false := hWord "inf".toList
  have hNan : isWord ".nan" (pointsOf (n.body.map Char.toLower)) = false := hWord "nan".toList
  rw [floatMagnitude, hInf, hNan, contains_colon fun c hc => small_mem hc]
  rfl

/-- A number is read as the float that it denotes, if it is read as a float. -/
theorem floatOfPoints_eq (n : Number) : floatOfPoints (pointsOf n.chars) = .ok n.float := by
  obtain ⟨d, rest, hSmall⟩ := n.exists_small
  have hParts : floatParts (pointsOf n.chars) =
      (n.negative, pointsOf (n.body.map Char.toLower)) := by
    have hSign : n.chars.map Char.toLower =
        (if n.negative then ['-'] else []) ++ n.body.map Char.toLower := by
      rw [n.chars_eq, signChars, List.map_append]
      split <;> rfl
    rw [floatParts, withoutUnderscores_eq fun c hc => mem_numberChars hc,
      toLower_points fun c hc => mem_numberChars hc, hSign, hSmall]
    exact splitSign_points n.negative d rest
  have hSome : (withoutUnderscores (pointsOf n.chars)).isEmpty = false := by
    obtain ⟨d, rest, hBody⟩ := n.exists_first
    rw [withoutUnderscores_eq fun c hc => mem_numberChars hc, n.chars_eq, hBody, pointsOf]
    simp
  rw [floatOfPoints, hParts, hSome]
  show (floatMagnitude _).map _ = _
  rw [floatMagnitude_body, floatIn_body, float]
  cases n.negative with
  | true => exact congrArg Except.ok (neg_ofDecimal _ _)
  | false => rfl

end Number

end EntityGraph.Json
