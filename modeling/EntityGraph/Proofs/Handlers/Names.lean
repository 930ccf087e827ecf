import EntityGraph.Validator.Signature
import Mathlib.Data.List.Basic
import Mathlib.Tactic.SplitIfs

/-!
# Names in expressions

The names that an expression of the generated module evaluates are the words of its text that stand
outside of quotes.  A word that starts with a digit is a number, one that a quote follows belongs to
a quoted text, and one that an equals sign follows names an argument; of a word with dots only the
first part is looked up, and the three constants are no names.

* `namesFrom`, `names`: the names of a text, by one pass over its characters;
* `Reads`: a piece of text whose names do not depend on what comes after it;
* `Enclosed`: what may stand between quotes, as literals have it;
* `Reads.append`, `Reads.word`, `reads_between`: how such pieces are made.
-/

namespace EntityGraph.Expression

/-- What a pass over the characters of an expression is in: code, with the word being read, the last
character first, or a quoted text, before an escaped character or not. -/
inductive Mode where
  | code (word : List Char)
  | text (quote : Char) (escaped : Bool)

def isQuote (c : Char) : Bool := c = '\'' || c = '"'

/-- A character of a name, of a number, or of a row of names with dots. -/
def isWordPart (c : Char) : Bool := c.isAlphanum || c = '_' || c = '.'

def IsWord (w : List Char) : Prop := w.all isWordPart = true

instance (w : List Char) : Decidable (IsWord w) := inferInstanceAs (Decidable (_ = true))

def constants : List (List Char) := [
  ['T', 'r', 'u', 'e'], ['F', 'a', 'l', 's', 'e'], ['N', 'o', 'n', 'e']]

/-- The name that a word evaluates, if it is one. -/
def wordNames (word : List Char) : List String :=
  let first := word.takeWhile (· ≠ '.')
  if word.head?.all Char.isDigit || constants.contains first then [] else [String.ofList first]

/-- The names that the rest of an expression evaluates. -/
def namesFrom : Mode → List Char → List String
  | .code word, [] => wordNames word.reverse
  | .code word, c :: cs =>
    if isWordPart c then namesFrom (.code (c :: word)) cs
    else if isQuote c then namesFrom (.text c false) cs
    else if c = '=' then namesFrom (.code []) cs
    else wordNames word.reverse ++ namesFrom (.code []) cs
  | .text _ _, [] => []
  | .text quote true, _ :: cs => namesFrom (.text quote false) cs
  | .text quote false, c :: cs =>
    if c = '\\' then namesFrom (.text quote true) cs
    else if c = quote then namesFrom (.code []) cs
    else namesFrom (.text quote false) cs

/-- The names that an expression evaluates. -/
def names (cs : List Char) : List String := namesFrom (.code []) cs

/-! ## Words -/

theorem isWord_cons {c : Char} {w : List Char} :
    IsWord (c :: w) ↔ isWordPart c = true ∧ IsWord w := by
  simp [IsWord]

theorem isWord_append {v w : List Char} : IsWord (v ++ w) ↔ IsWord v ∧ IsWord w := by
  simp [IsWord]

theorem isWord_of_isAlphanum {w : List Char} (h : ∀ c ∈ w, c.isAlphanum = true) : IsWord w :=
  List.all_eq_true.mpr fun c hc => by simp [isWordPart, h c hc]

theorem isWord_of_isDigit {w : List Char} (h : ∀ c ∈ w, c.isDigit = true) : IsWord w :=
  isWord_of_isAlphanum fun c hc => by simp [Char.isAlphanum, h c hc]

/-! ## Pieces of text -/

/-- A character that ends a word as a name. -/
def closes (c : Char) : Bool := !isWordPart c && !isQuote c && c ≠ '='

/-- A text that ends a word before it as a name. -/
def IsClosing (cs : List Char) : Prop := ∀ c ∈ cs.head?, closes c = true

/-- A piece of text with its names, whatever comes after it. -/
def Reads (cs : List Char) (ns : List String) : Prop :=
  ∀ rest, IsClosing rest → names (cs ++ rest) = ns ++ names rest

theorem namesFrom_closes {c : Char} (h : closes c = true) (word cs : List Char) :
    namesFrom (.code word) (c :: cs) = wordNames word.reverse ++ names cs := by
  simp only [closes, Bool.and_eq_true, Bool.not_eq_true', decide_eq_true_eq] at h
  obtain ⟨⟨hPart, hQuote⟩, hEquals⟩ := h
  simp [namesFrom, hPart, hQuote, hEquals, names]

theorem names_closes {c : Char} (h : closes c = true) (cs : List Char) :
    names (c :: cs) = names cs := by
  rw [names, namesFrom_closes h]
  rfl

/-- What a closing text is read as does not depend on the word before it. -/
theorem namesFrom_closing {rest : List Char} (h : IsClosing rest) (word : List Char) :
    namesFrom (.code word) rest = wordNames word.reverse ++ names rest := by
  cases rest with
  | nil => simp [namesFrom, names, wordNames]
  | cons c cs =>
    have hCloses : closes c = true := h c rfl
    rw [namesFrom_closes hCloses, names_closes hCloses]

theorem namesFrom_word {w : List Char} (h : IsWord w) (word rest : List Char) :
    namesFrom (.code word) (w ++ rest) = namesFrom (.code (w.reverse ++ word)) rest := by
  induction w generalizing word with
  | nil => rfl
  | cons c w ih =>
    obtain ⟨hFirst, hRest⟩ := isWord_cons.mp h
    rw [List.cons_append, namesFrom, if_pos hFirst, ih hRest]
    simp

namespace Reads

theorem nil : Reads [] [] := fun _ _ => rfl

/-- With nothing after it, the names of a piece are those of the whole text. -/
theorem names_eq {cs : List Char} {ns : List String} (h : Reads cs ns) : names cs = ns := by
  have hEnd := h [] (by simp [IsClosing])
  have hNothing : names [] = [] := rfl
  rwa [List.append_nil, hNothing, List.append_nil] at hEnd

theorem word {w : List Char} (h : IsWord w) : Reads w (wordNames w) := by
  intro rest hRest
  rw [names, namesFrom_word h, namesFrom_closing hRest]
  simp

theorem cons {c : Char} {cs : List Char} {ns : List String} (hCloses : closes c = true)
    (h : Reads cs ns) : Reads (c :: cs) ns := by
  intro rest hRest
  rw [List.cons_append, names_closes hCloses, h rest hRest]

/-- A piece before one that ends its last word. -/
theorem before {a b : List Char} {c : Char} {ns ms : List String} (ha : Reads a ns)
    (hCloses : closes c = true) (hb : Reads (c :: b) ms) : Reads (a ++ c :: b) (ns ++ ms) := by
  intro rest hRest
  have hMiddle : IsClosing (c :: b ++ rest) := by
    intro d hd
    obtain rfl := Option.some.inj hd
    exact hCloses
  rw [List.append_assoc, ha _ hMiddle, hb rest hRest, List.append_assoc]

theorem append {a b : List Char} {c : Char} {ns ms : List String} (ha : Reads a ns)
    (hCloses : closes c = true) (hb : Reads b ms) : Reads (a ++ c :: b) (ns ++ ms) :=
  ha.before hCloses (.cons hCloses hb)

theorem marks {cs b : List Char} {ns : List String} (h : ∀ c ∈ cs, closes c = true)
    (hb : Reads b ns) : Reads (cs ++ b) ns := by
  induction cs with
  | nil => exact hb
  | cons c cs ih =>
    obtain ⟨hFirst, hRest⟩ := List.forall_mem_cons.mp h
    exact .cons hFirst (ih hRest)

/-- The name of an argument before its value. -/
theorem argument {w cs : List Char} {ns : List String} (hWord : IsWord w) (h : Reads cs ns) :
    Reads (w ++ '=' :: cs) ns := by
  intro rest hRest
  have hEquals : isWordPart '=' = false ∧ isQuote '=' = false := by decide
  rw [List.append_assoc, names, namesFrom_word hWord, List.cons_append, namesFrom]
  simp only [hEquals.1, hEquals.2, Bool.false_eq_true, if_false, if_true]
  exact h rest hRest

end Reads

/-! ## Quoted texts -/

/-- Characters of a quoted text that leave a pass over it inside the text. -/
def Inside (quote : Char) (cs : List Char) : Prop :=
  ∀ rest, namesFrom (.text quote false) (cs ++ rest) = namesFrom (.text quote false) rest

namespace Inside

variable {quote : Char}

theorem append {a b : List Char} (ha : Inside quote a) (hb : Inside quote b) :
    Inside quote (a ++ b) := by
  intro rest
  rw [List.append_assoc, ha, hb]

theorem plain {c : Char} (hEscape : c ≠ '\\') (hQuote : c ≠ quote) : Inside quote [c] := by
  intro rest
  simp [namesFrom, hEscape, hQuote]

theorem escaped (c : Char) : Inside quote ['\\', c] := by
  intro rest
  simp [namesFrom]

end Inside

theorem isQuote_cases {c : Char} (h : isQuote c = true) : c = '\'' ∨ c = '"' := by
  simpa [isQuote] using h

/-- A quoted text, maybe with letters before it, has no names. -/
theorem Reads.quoted {quote : Char} (hQuote : isQuote quote = true) {w content : List Char}
    (hWord : IsWord w) (hContent : Inside quote content) :
    Reads (w ++ quote :: (content ++ [quote])) [] := by
  intro rest _
  have hNoPart : isWordPart quote = false ∧ quote ≠ '\\' := by
    rcases isQuote_cases hQuote with rfl | rfl <;> decide
  rw [List.append_assoc, names, namesFrom_word hWord, List.cons_append, namesFrom]
  simp only [hNoPart.1, hQuote, Bool.false_eq_true, if_false, if_true]
  rw [List.append_assoc, hContent, List.singleton_append, namesFrom]
  simp [hNoPart.2, names]

theorem quoteFor_isQuote (cs : List Char) : isQuote (Literal.quoteFor cs) = true := by
  unfold Literal.quoteFor
  split <;> decide

/-! ## Escapes -/

/-- A character that stands for itself between quotes. -/
def isPlain (quote c : Char) : Bool :=
  c ≠ '\\' && c ≠ quote && c ≠ '\n' && c ≠ '\r' && c ≠ '\x00'

/-- A row of characters that stand for themselves and of escapes, whose first character hides the
second. -/
inductive Enclosed (quote : Char) : List Char → Prop
  | nil : Enclosed quote []
  | plain {c : Char} {cs : List Char} (hPlain : isPlain quote c = true) (h : Enclosed quote cs) :
      Enclosed quote (c :: cs)
  | escaped (c : Char) {cs : List Char} (h : Enclosed quote cs) : Enclosed quote ('\\' :: c :: cs)

namespace Enclosed

variable {quote : Char}

theorem append {a b : List Char} (ha : Enclosed quote a) (hb : Enclosed quote b) :
    Enclosed quote (a ++ b) := by
  induction ha with
  | nil => exact hb
  | plain hPlain _ ih => exact .plain hPlain ih
  | escaped c _ ih => exact .escaped c ih

theorem flatMap {α : Type} {f : α → List Char} {xs : List α}
    (h : ∀ x ∈ xs, Enclosed quote (f x)) : Enclosed quote (xs.flatMap f) := by
  induction xs with
  | nil => exact .nil
  | cons x xs ih =>
    rw [List.flatMap_cons]
    exact (h x List.mem_cons_self).append (ih fun y hy => h y (List.mem_cons_of_mem _ hy))

/-- A pass over such a row stays inside the text. -/
theorem inside {cs : List Char} (h : Enclosed quote cs) : Inside quote cs := by
  induction h with
  | nil => exact fun _ => rfl
  | @plain c cs hPlain _ ih =>
    simp only [isPlain, Bool.and_eq_true, decide_eq_true_eq] at hPlain
    exact (Inside.plain hPlain.1.1.1.1 hPlain.1.1.1.2).append ih
  | escaped c _ ih => exact (Inside.escaped c).append ih

end Enclosed

theorem hexDigit_isAlphanum : ∀ n < 16, (Literal.hexDigit n).isAlphanum = true := by decide

theorem isPlain_of_isAlphanum {quote c : Char} (hQuote : isQuote quote = true)
    (h : c.isAlphanum = true) : isPlain quote c = true := by
  have hOther : ∀ d : Char, d.isAlphanum = false → c ≠ d := by
    rintro d hd rfl
    rw [h] at hd
    cases hd
  have hDelimiter : quote.isAlphanum = false := by
    rcases isQuote_cases hQuote with rfl | rfl <;> decide
  simp [isPlain, hOther _ hDelimiter, hOther '\\' (by decide), hOther '\n' (by decide),
    hOther '\r' (by decide), hOther '\x00' (by decide)]

theorem enclosed_hex {quote : Char} (hQuote : isQuote quote = true) (width n : Nat) :
    Enclosed quote (Literal.hex width n) := by
  induction width generalizing n with
  | zero => exact .nil
  | succ width ih =>
    have hDigit := hexDigit_isAlphanum (n % 16) (Nat.mod_lt _ (by decide))
    exact (ih _).append (.plain (isPlain_of_isAlphanum hQuote hDigit) .nil)

theorem enclosed_escape {quote : Char} (hQuote : isQuote quote = true) (c : Char) :
    Enclosed quote (Literal.escape quote c) := by
  have hHex : ∀ (letter : Char) (width : Nat),
      Enclosed quote ('\\' :: letter :: Literal.hex width c.toNat) := fun letter width =>
    .escaped letter (enclosed_hex hQuote width c.toNat)
  unfold Literal.escape
  split_ifs with hSpecial hLine hReturn hTab hVisible hShort hMiddle
  · exact .escaped c .nil
  · exact .escaped 'n' .nil
  · exact .escaped 'r' .nil
  · exact .escaped 't' .nil
  · simp only [Bool.or_eq_true, decide_eq_true_eq, not_or] at hSpecial
    have hNull : c ≠ '\x00' := by
      rintro rfl
      exact absurd hVisible (by decide)
    refine .plain ?_ .nil
    simp [isPlain, hSpecial.1, hSpecial.2, hLine, hReturn, hNull]
  · exact hHex 'x' 2
  · exact hHex 'u' 4
  · exact hHex 'U' 8

theorem enclosed_escapePoint {quote : Char} (hQuote : isQuote quote = true) (p : Text.Point) :
    Enclosed quote (Literal.escapePoint quote p) := by
  cases p with
  | char c => exact enclosed_escape hQuote c
  | half code => exact .escaped 'u' (enclosed_hex hQuote 4 code)

theorem enclosed_escapeByte {quote : Char} (hQuote : isQuote quote = true) (b : UInt8) :
    Enclosed quote (Literal.escapeByte quote b) := by
  have hHex : Enclosed quote ('\\' :: 'x' :: Literal.hex 2 b.toNat) :=
    .escaped 'x' (enclosed_hex hQuote 2 b.toNat)
  simp only [Literal.escapeByte]
  split_ifs
  · exact enclosed_escape hQuote _
  · exact hHex
  · exact hHex

theorem reads_between {quote : Char} (hQuote : isQuote quote = true) (cs : List Char) :
    Reads (Literal.between quote cs) [] :=
  .quoted hQuote (w := []) (by decide) (Enclosed.flatMap fun c _ => enclosed_escape hQuote c).inside

theorem reads_pointsBetween {quote : Char} (hQuote : isQuote quote = true) (ps : List Text.Point) :
    Reads (Literal.pointsBetween quote ps) [] :=
  .quoted hQuote (w := []) (by decide)
    (Enclosed.flatMap fun p _ => enclosed_escapePoint hQuote p).inside

theorem reads_bytesBetween {quote : Char} (hQuote : isQuote quote = true) (bs : List UInt8) :
    Reads ('b' :: quote :: (bs.flatMap (Literal.escapeByte quote) ++ [quote])) [] :=
  .quoted hQuote (w := ['b']) (by decide)
    (Enclosed.flatMap fun b _ => enclosed_escapeByte hQuote b).inside

/-! ## Numbers -/

/-- A word that starts with a digit has no names. -/
theorem Reads.number {c : Char} {cs : List Char} (hDigit : c.isDigit = true)
    (h : IsWord cs) : Reads (c :: cs) [] := by
  have hFirst : isWordPart c = true := by simp [isWordPart, Char.isAlphanum, hDigit]
  have hRead := Reads.word (isWord_cons.mpr ⟨hFirst, h⟩)
  rwa [wordNames, if_pos (by simp [hDigit])] at hRead

theorem toList_toString (n : Nat) : (toString n).toList = Nat.toDigits 10 n := by
  rw [Nat.toString_eq_ofList_toDigits, String.toList_ofList]

theorem toList_negSucc (n : Nat) :
    (toString (Int.negSucc n)).toList = '-' :: (toString (n + 1)).toList := by
  change ("-" ++ toString (n + 1)).toList = _
  rw [String.toList_append]
  rfl

theorem toDigits_cons (n : Nat) : ∃ c cs, Nat.toDigits 10 n = c :: cs ∧ c.isDigit = true ∧
    ∀ d ∈ cs, d.isDigit = true := by
  have hAll : ∀ d ∈ Nat.toDigits 10 n, d.isDigit = true := fun d hd =>
    Nat.isDigit_of_mem_toDigits (by decide) (by decide) hd
  cases hDigits : Nat.toDigits 10 n with
  | nil => exact absurd hDigits Nat.toDigits_ne_nil
  | cons c cs =>
    rw [hDigits, List.forall_mem_cons] at hAll
    exact ⟨c, cs, rfl, hAll⟩

theorem reads_nat (n : Nat) : Reads (toString n).toList [] := by
  obtain ⟨c, cs, hDigits, hFirst, hRest⟩ := toDigits_cons n
  rw [toList_toString, hDigits]
  exact .number hFirst (isWord_of_isDigit hRest)

theorem reads_int (i : Int) : Reads (toString i).toList [] := by
  cases i with
  | ofNat n => exact reads_nat n
  | negSucc n =>
    rw [toList_negSucc]
    exact .cons (by decide) (reads_nat _)

end EntityGraph.Expression
