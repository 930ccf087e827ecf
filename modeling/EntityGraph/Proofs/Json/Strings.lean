import EntityGraph.Markup.Token.Scalar
import EntityGraph.Proofs.Failing
import EntityGraph.Proofs.Json.Syntax
import EntityGraph.Proofs.Markup.Blanks

/-!
# Strings as quoted scalars

A string is read as a scalar between double quotes.  Escapes mean the same, but that the halves of
pairs stay as they are.  A line break that stands for itself is folded with the blanks around it,
and a document separator after one is refused.

* `Pieces.points`: the code points that are read;
* `Pieces.isCalm`: the strings in which no document separator comes after a line break;
* `readQuoted_gives`: how a string is read.
-/

namespace EntityGraph.Json

open Markup
open Text (Point)

/-! ## What is read -/

/-- The blank or the line break that a piece is. -/
def Piece.gap? : Piece → Option Char
  | .plain c _ => if isGapChar c || isBreak c then some c else none
  | _ => none

def Piece.isBreak (p : Piece) : Bool := p.gap?.any Markup.isBreak

/-- A line break as contents have it. -/
def brokenLine (c : Char) : Char := if c = '\u2028' || c = '\u2029' then c else '\n'

/-- Blanks as they are, or line breaks folded without the blanks around them. -/
def foldGap (cs : List Char) : List Char :=
  match (cs.filter Markup.isBreak).map brokenLine with
  | [] => cs
  | first :: rest => foldBreaks [first] rest

/-- A text that starts with a document separator. -/
def startsSeparator : List Char → Bool
  | a :: b :: c :: d :: _ =>
    ((a = '-' && b = '-' && c = '-') || (a = '.' && b = '.' && c = '.')) && endsWord (some d)
  | _ => false

namespace Pieces

/-- The blanks and line breaks that a string starts with, and the code points after these. -/
def parts : Pieces → List Char × List Point
  | [] => ([], [])
  | p :: ps =>
    match p.gap? with
    | some c => (c :: (parts ps).1, (parts ps).2)
    | none => ([], p.point :: (pointsOf (foldGap (parts ps).1) ++ (parts ps).2))

/-- The code points that are read of a string. -/
def points (ps : Pieces) : List Point := pointsOf (foldGap ps.parts.1) ++ ps.parts.2

/-- No document separator comes after a line break. -/
def isCalm : Pieces → Bool
  | [] => true
  | p :: ps => !(p.isBreak && startsSeparator (inner ps)) && isCalm ps

end Pieces

/-! ## Escapes -/

theorem Letter.escape (l : Letter) : letterEscape? l.spelling = some l.meaning := by
  cases l <;> rfl

theorem HexDigit.isHex (d : HexDigit) : isHex d.char = true := by
  have hAll : ∀ (n : Fin 16) (u : Bool), Markup.isHex (HexDigit.char ⟨n, u⟩) = true := by decide
  exact hAll d.number d.upper

theorem HexDigit.value (d : HexDigit) : hexDigitValue d.char = d.number := by
  have hAll : ∀ (n : Fin 16) (u : Bool), hexDigitValue (HexDigit.char ⟨n, u⟩) = n := by decide
  exact hAll d.number d.upper

variable {m since : Mark} {cs : List Char}

theorem readCode_unit {a b c d : HexDigit}
    (h : m.after = a.char :: b.char :: c.char :: d.char :: cs) :
    readCode since m 4 = .ok
      (((a.number.val * 16 + b.number.val) * 16 + c.number.val) * 16 + d.number.val,
        m.skip 4) := by
  have h₁ := Mark.next_after h
  have h₂ := Mark.next_after h₁
  have h₃ := Mark.next_after h₂
  have hHex : nonHex? m 4 = none := by
    simp [nonHex?, Mark.peek_eq h, Mark.peek_eq h₁, Mark.peek_eq h₂, Mark.peek_eq h₃,
      HexDigit.isHex]
  simp [readCode, hHex, h, hexValue, HexDigit.value]

theorem pointOfCode_unit (a b c d : HexDigit) :
    pointOfCode (((a.number.val * 16 + b.number.val) * 16 + c.number.val) * 16 + d.number.val) =
      .ok (Piece.unit a b c d).point := by
  have hRange : ((a.number.val * 16 + b.number.val) * 16 + c.number.val) * 16 + d.number.val ≤
      0xFFFF := by omega
  have hSmall : ¬ ((a.number.val * 16 + b.number.val) * 16 + c.number.val) * 16 + d.number.val ≥
      Nat.pow 2 31 := by
    have hPower : Nat.pow 2 31 = 2147483648 := by decide
    omega
  rw [pointOfCode, if_neg hSmall, if_neg (by omega)]
  rfl

theorem readEscape_unit {a b c d : HexDigit}
    (h : m.after = 'u' :: a.char :: b.char :: c.char :: d.char :: cs) :
    readEscape since m = .ok ([(Piece.unit a b c d).point], m.next.skip 4) := by
  have hCode : (readCode since m.next 4 >>= fun x => pointOfCode x.1 >>= fun p =>
      Except.ok ([p], x.2)) = .ok ([(Piece.unit a b c d).point], m.next.skip 4) := by
    rw [readCode_unit (Mark.next_after h)]
    show (pointOfCode _ >>= _) = _
    rw [pointOfCode_unit]
    rfl
  rw [readEscape, Mark.peek_eq h]
  exact hCode

/-! ## Words -/

theorem quotedWord_escape {fuel : Nat} {p : Point} {stop : Mark} (h : m.after = '\\' :: cs)
    (hEscape : readEscape since m.next = .ok ([p], stop)) :
    quotedWord true since (fuel + 1) m =
      (quotedWord true since fuel stop).map fun (more, stop) => (p :: more, stop) := by
  have hWord : (isGapChar '\\' || Markup.isBreak '\\') = false := by decide
  simp only [quotedWord, Mark.peek_eq h, hWord, hEscape, Bool.false_eq_true, if_false]
  rfl

/-- A piece that is neither a blank nor a line break is one code point of a word. -/
theorem quotedWord_piece {p : Piece} {fuel : Nat} (hp : p.gap? = none)
    (h : m.after = p.chars ++ cs) :
    quotedWord true since (fuel + 1) m =
      (quotedWord true since fuel (m.skip p.chars.length)).map fun (more, stop) =>
        (p.point :: more, stop) := by
  cases p with
  | plain c hc =>
    have h : m.after = c :: cs := h
    have hWord : (isGapChar c || Markup.isBreak c) = false := by simpa [Piece.gap?] using hp
    have hNe : c ≠ '"' ∧ c ≠ '\\' := by
      simp only [isUnescaped, Bool.and_eq_true, decide_eq_true_eq] at hc
      exact ⟨hc.1.2, hc.2⟩
    simp only [quotedWord, Mark.peek_eq h, hWord, hNe.1, hNe.2, Bool.false_eq_true, if_false,
      decide_false, Bool.false_and, Bool.not_true, Bool.and_false]
    rfl
  | letter l =>
    refine quotedWord_escape h ?_
    rw [readEscape, Mark.peek_eq (Mark.next_after h)]
    simp only [l.escape]
    rfl
  | unit a b c d => exact quotedWord_escape h (readEscape_unit (Mark.next_after h))

/-- A character at which a word ends. -/
def endsQuotedWord (c : Char) : Prop := c = '"' ∨ (isGapChar c || Markup.isBreak c) = true

theorem quotedWord_end {c : Char} {fuel : Nat} (h : m.after = c :: cs) (hc : endsQuotedWord c) :
    quotedWord true since fuel m = .ok ([], m) := by
  cases fuel with
  | zero => rfl
  | succ fuel =>
    simp only [quotedWord, Mark.peek_eq h]
    rcases hc with rfl | hGap
    · rfl
    · rw [if_pos hGap]

theorem quotedWord_pieces (since : Mark) {c : Char} {us : Pieces} {fuel : Nat}
    (hus : ∀ p ∈ us, p.gap? = none) (h : m.after = us.inner ++ c :: cs) (hc : endsQuotedWord c)
    (hFuel : us.length ≤ fuel) :
    quotedWord true since fuel m = .ok (us.map Piece.point, m.skip us.inner.length) := by
  induction us generalizing m fuel with
  | nil => exact quotedWord_end h hc
  | cons p us ih =>
    obtain ⟨fuel, rfl⟩ := Nat.exists_eq_add_one.mpr (Nat.lt_of_lt_of_le (by simp) hFuel)
    have h : m.after = p.chars ++ (Pieces.inner us ++ c :: cs) := by
      rw [h, ← List.append_assoc]
      rfl
    have hTail := ih (fun q hq => hus q (.tail _ hq)) (Mark.skip_after h) (by simpa using hFuel)
    have hInner : Pieces.inner (p :: us) = p.chars ++ Pieces.inner us := rfl
    rw [quotedWord_piece (hus p List.mem_cons_self) h, hTail, hInner, Mark.skip_append]
    rfl

/-! ## Blanks and line breaks -/

/-- A blank or a line break that may stand for itself in a string. -/
def IsRawGap (c : Char) : Prop := c = ' ' ∨ c = '\u0085' ∨ c = '\u2028' ∨ c = '\u2029'

theorem IsRawGap.cases {c : Char} (h : IsRawGap c) :
    isGapChar c = true ∧ Markup.isBreak c = false ∨
      isGapChar c = false ∧ Markup.isBreak c = true := by
  rcases h with rfl | rfl | rfl | rfl
  · exact .inl (by decide)
  all_goals exact .inr (by decide)

theorem IsRawGap.lineBreak {c : Char} (h : IsRawGap c) (hBreak : Markup.isBreak c = true)
    (hAfter : m.after = c :: cs) : m.lineBreak = ([brokenLine c], m.next) := by
  rcases h with rfl | rfl | rfl | rfl
  · cases hBreak
  all_goals simp [Mark.lineBreak, hAfter, brokenLine, Markup.isBreak]

theorem IsRawGap.piece {p : Piece} {c : Char} (h : p.gap? = some c) :
    p.chars = [c] ∧ IsRawGap c := by
  cases p with
  | plain d hd =>
    simp only [Piece.gap?, Option.ite_none_right_eq_some, Option.some.injEq] at h
    obtain ⟨hGap, rfl⟩ := h
    refine ⟨rfl, ?_⟩
    simp only [isUnescaped, Bool.and_eq_true, decide_eq_true_eq] at hd
    simp only [isGapChar, Markup.isBreak, Bool.or_eq_true, decide_eq_true_eq] at hGap
    rcases hGap with (rfl | rfl) | ((((rfl | rfl) | rfl) | rfl) | rfl)
    · exact .inl rfl
    · exact absurd hd.1.1 (by decide)
    · exact absurd hd.1.1 (by decide)
    · exact absurd hd.1.1 (by decide)
    · exact .inr (.inl rfl)
    · exact .inr (.inr (.inl rfl))
    · exact .inr (.inr (.inr rfl))
  | letter l => cases h
  | unit a b c d => cases h

/-- A row of blanks and line breaks ends with a line break, or is empty. -/
def endsBroken (gs : List Char) : Bool := gs.getLast?.all Markup.isBreak

theorem exists_spaces {gs : List Char} (hgs : ∀ c ∈ gs, IsRawGap c) :
    ∃ v w, gs = v ++ w ∧ (∀ c ∈ v, isGapChar c = true ∧ Markup.isBreak c = false) ∧
      (w = [] ∨ ∃ b w', w = b :: w' ∧ isGapChar b = false ∧ Markup.isBreak b = true) := by
  refine ⟨gs.takeWhile isGapChar, gs.dropWhile isGapChar,
    (List.takeWhile_append_dropWhile).symm, ?_, ?_⟩
  · intro c hc
    have hGap := List.mem_takeWhile_imp hc
    rcases (hgs c ((List.takeWhile_sublist _).subset hc)).cases with hSpace | hBreak
    · exact hSpace
    · exact absurd (hGap.symm.trans hBreak.1) (by decide)
  · cases hDrop : gs.dropWhile isGapChar with
    | nil => exact .inl rfl
    | cons b w =>
      have hFirst : (gs.dropWhile isGapChar).head? = some b := by rw [hDrop]; rfl
      have hMem : b ∈ gs := (List.dropWhile_sublist _).subset (List.mem_of_head? hFirst)
      have hNot : isGapChar b = false := by
        simpa [hFirst] using List.head?_dropWhile_not isGapChar gs
      refine .inr ⟨b, w, rfl, hNot, ?_⟩
      rcases (hgs b hMem).cases with hSpace | hBreak
      · exact absurd (hNot.symm.trans hSpace.1) (by decide)
      · exact hBreak.2

theorem filter_spaces {v : List Char}
    (hv : ∀ c ∈ v, isGapChar c = true ∧ Markup.isBreak c = false) :
    v.filter Markup.isBreak = [] :=
  List.filter_eq_nil_iff.mpr fun c hc => by simp [hv c hc]

theorem filter_break {v : List Char}
    (hv : ∀ c ∈ v, isGapChar c = true ∧ Markup.isBreak c = false) {b : Char}
    (hb : Markup.isBreak b = true) (w : List Char) :
    (v ++ b :: w).filter Markup.isBreak = b :: w.filter Markup.isBreak := by
  rw [List.filter_append, filter_spaces hv, List.filter_cons_of_pos hb, List.nil_append]

theorem endsBroken_spaces {v : List Char}
    (hv : ∀ c ∈ v, isGapChar c = true ∧ Markup.isBreak c = false) (hSome : v ≠ []) :
    endsBroken v = false := by
  rw [endsBroken, List.getLast?_eq_some_getLast hSome]
  exact (hv _ (List.getLast_mem _)).2

theorem endsBroken_append {v w : List Char} {b : Char} (hb : Markup.isBreak b = true) :
    endsBroken (v ++ b :: w) = endsBroken w := by
  cases w with
  | nil => simp [endsBroken, hb]
  | cons c w => simp [endsBroken, List.getLast?_append, List.getLast?_cons]

/-- A character at which a row of blanks and line breaks ends. -/
def EndsGap (c : Char) : Prop := isGapChar c = false ∧ Markup.isBreak c = false

/-- Where a row of blanks and line breaks does not end, no separator starts. -/
theorem isSeparator_of_gap {gs : List Char} (hgs : ∀ g ∈ gs, IsRawGap g) (h : m.after = gs ++ cs)
    (hSome : gs ≠ []) : m.isSeparator = false := by
  refine isSeparator_eq_false fun d hd => ?_
  rw [Mark.peek, h] at hd
  cases gs with
  | nil => exact absurd rfl hSome
  | cons g gs =>
    obtain rfl : g = d := Option.some.inj hd
    rcases hgs g List.mem_cons_self with rfl | rfl | rfl | rfl <;> decide

section

variable {c : Char} {gs : List Char} (hgs : ∀ g ∈ gs, IsRawGap g) (hc : EndsGap c)
include hgs hc

theorem span_gap (h : m.after = gs ++ c :: cs) :
    ∃ v w, gs = v ++ w ∧ (∀ c ∈ v, isGapChar c = true ∧ Markup.isBreak c = false) ∧
      m.span isGapChar = (v, m.skip v.length) ∧
      (w = [] ∧ (m.skip v.length).peek = some c ∨
        ∃ b w', w = b :: w' ∧ Markup.isBreak b = true ∧ (m.skip v.length).peek = some b ∧
          (m.skip v.length).lineBreak = ([brokenLine b], (m.skip v.length).next) ∧
          (m.skip v.length).next.after = w' ++ c :: cs) := by
  obtain ⟨v, w, rfl, hv, hRest⟩ := exists_spaces hgs
  rw [List.append_assoc] at h
  have hAfter := Mark.skip_after h
  refine ⟨v, w, rfl, hv, ?_, ?_⟩
  · refine Mark.span_eq h (fun d hd => (hv d hd).1) fun d hd => ?_
    rcases hRest with rfl | ⟨b, w', rfl, hb, -⟩
    · obtain rfl : c = d := Option.some.inj hd
      exact hc.1
    · obtain rfl : b = d := Option.some.inj hd
      exact hb
  · rcases hRest with rfl | ⟨b, w', rfl, -, hb⟩
    · exact .inl ⟨rfl, Mark.peek_eq hAfter⟩
    · exact .inr ⟨b, w', rfl, hb, Mark.peek_eq hAfter,
        (hgs b (by simp)).lineBreak hb hAfter, Mark.next_after hAfter⟩

/-- Line breaks with the blanks between them are read up to a word, unless a separator starts
there. -/
theorem quotedBreaks_gives (since : Mark) {fuel : Nat} (h : m.after = gs ++ c :: cs)
    (hFuel : gs.length < fuel) :
    GivesIf (!(endsBroken gs && (m.skip gs.length).isSeparator))
      ((gs.filter Markup.isBreak).map brokenLine, m.skip gs.length)
      (quotedBreaks since fuel m) := by
  induction fuel generalizing m gs with
  | zero => exact absurd hFuel (Nat.not_lt_zero _)
  | succ fuel ih =>
    have hSeparator := isSeparator_of_gap hgs h
    obtain ⟨v, w, rfl, hv, hSpan, hRest⟩ := span_gap hgs hc h
    have hSkip : m.skipWhile isGapChar = m.skip v.length := by rw [Mark.skipWhile, hSpan]
    rcases hRest with ⟨rfl, hPeek⟩ | ⟨b, w, rfl, hb, hPeek, hLine, hNext⟩
    · have hEnd (hNone : m.isSeparator = false) :
          quotedBreaks since (fuel + 1) m = .ok ([], m.skip v.length) := by
        simp only [quotedBreaks, hNone, hSkip, hPeek, Option.any_some, hc.2, Bool.false_eq_true,
          if_false]
        rfl
      rw [List.append_nil, filter_spaces hv]
      cases v with
      | nil =>
        -- A line starts here, and a separator at its start is refused.
        show GivesIf (!m.isSeparator) ([], m) _
        refine ⟨fun hNone => hEnd (by simpa using hNone), fun hStarts => ?_⟩
        have hStarts : m.isSeparator = true := by simpa using hStarts
        exact ⟨_, by simp only [quotedBreaks, hStarts, if_true]; rfl⟩
      | cons d v =>
        rw [endsBroken_spaces hv (List.cons_ne_nil d v)]
        exact .of_eq (hEnd (hSeparator (by simp)))
    · have hLength : w.length < fuel := by
        simp only [List.length_append, List.length_cons] at hFuel
        omega
      have hw : ∀ g ∈ w, IsRawGap g := fun g hg => hgs g (by simp [hg])
      have hStep : quotedBreaks since (fuel + 1) m =
          (quotedBreaks since fuel (m.skip v.length).next).map fun x =>
            (brokenLine b :: x.1, x.2) := by
        have hNone := hSeparator (by simp)
        simp only [quotedBreaks, hNone, hSkip, hPeek, Option.any_some, hb, Bool.false_eq_true,
          if_false, if_true, hLine]
        cases quotedBreaks since fuel (m.skip v.length).next <;> rfl
      rw [endsBroken_append hb, Mark.skip_append, Mark.skip_cons, filter_break hv hb, hStep]
      exact (ih hw hNext hLength).map fun x => (brokenLine b :: x.1, x.2)

/-- Blanks and line breaks are folded, unless a separator starts a line after them. -/
theorem quotedSpaces_gives (since : Mark) (hSized : m.Sized) (h : m.after = gs ++ c :: cs)
    (hSome : gs ≠ []) :
    GivesIf (!(endsBroken gs && (m.skip gs.length).isSeparator)) (foldGap gs, m.skip gs.length)
      (quotedSpaces since m) := by
  have hAll : m.after = gs ++ c :: cs := h
  obtain ⟨v, w, rfl, hv, hSpan, hRest⟩ := span_gap hgs hc h
  rcases hRest with ⟨rfl, hPeek⟩ | ⟨b, w, rfl, hb, hPeek, hLine, hNext⟩
  · rw [List.append_nil] at hSome ⊢
    rw [endsBroken_spaces hv hSome]
    refine .of_eq ?_
    simp only [quotedSpaces, hSpan, hPeek, hc.2, Bool.false_eq_true, if_false, foldGap,
      filter_spaces hv]
    rfl
  · have hLength : w.length < (m.skip v.length).next.left := by
      have hAfter : m.after = (v ++ [b]) ++ (w ++ c :: cs) := by simpa using hAll
      have hLeft := hSized.left_skip hAfter
      rw [Mark.skip_append] at hLeft
      have hLeft : (m.skip v.length).next.left = (w ++ c :: cs).length := hLeft
      rw [hLeft, List.length_append, List.length_cons]
      omega
    have hw : ∀ g ∈ w, IsRawGap g := fun g hg => hgs g (by simp [hg])
    have hStep : quotedSpaces since m =
        (quotedBreaks since (m.skip v.length).next.left (m.skip v.length).next).map
          fun x => (foldBreaks [brokenLine b] x.1, x.2) := by
      simp only [quotedSpaces, hSpan, hPeek, hb, if_true, hLine]
      cases quotedBreaks since (m.skip v.length).next.left (m.skip v.length).next <;> rfl
    rw [endsBroken_append hb, Mark.skip_append, Mark.skip_cons, hStep, foldGap, filter_break hv hb]
    exact (quotedBreaks_gives hw hc since hNext hLength).map
      fun x => (foldBreaks [brokenLine b] x.1, x.2)

end

/-! ## Runs of pieces -/

namespace Pieces

@[simp] theorem inner_cons (p : Piece) (ps : Pieces) : inner (p :: ps) = p.chars ++ inner ps := rfl

@[simp] theorem inner_append (ps qs : Pieces) : inner (ps ++ qs) = inner ps ++ inner qs :=
  List.flatMap_append

/-- The first piece is neither a blank nor a line break. -/
def StartsWord (ps : Pieces) : Prop := ∀ p, ps.head? = some p → p.gap? = none

theorem StartsWord.parts {ps : Pieces} (h : ps.StartsWord) : ps.parts.1 = [] := by
  cases ps with
  | nil => rfl
  | cons p ps => simp [Pieces.parts, h p rfl]

theorem StartsWord.points {ps : Pieces} (h : ps.StartsWord) : ps.points = ps.parts.2 := by
  rw [Pieces.points, h.parts]
  rfl

/-- What follows the opening quote or a run of blanks is a character of a word or the closing
quote. -/
theorem StartsWord.endsGap {ps : Pieces} (h : ps.StartsWord) (cs : List Char) :
    ∃ c rest, ps.inner ++ '"' :: cs = c :: rest ∧ EndsGap c := by
  cases ps with
  | nil => exact ⟨'"', cs, rfl, rfl, rfl⟩
  | cons p ps =>
    have hp := h p rfl
    cases p with
    | plain c hc =>
      refine ⟨c, _, rfl, ?_⟩
      simpa [Piece.gap?, EndsGap] using hp
    | letter l => exact ⟨'\\', _, rfl, rfl, rfl⟩
    | unit a b c d => exact ⟨'\\', _, rfl, rfl, rfl⟩

section

variable {us gp rest : Pieces}

theorem points_word (hus : ∀ p ∈ us, p.gap? = none) (ps : Pieces) :
    points (us ++ ps) = us.map Piece.point ++ points ps := by
  induction us with
  | nil => rfl
  | cons p us ih =>
    have hFirst := hus p List.mem_cons_self
    have hTail := ih fun q hq => hus q (.tail _ hq)
    simp only [points] at hTail
    simp only [points, List.cons_append, parts, hFirst, hTail, List.map_cons]
    rfl

theorem isCalm_word (hus : ∀ p ∈ us, p.gap? = none) (ps : Pieces) :
    isCalm (us ++ ps) = isCalm ps := by
  induction us with
  | nil => rfl
  | cons p us ih =>
    have hBreak : p.isBreak = false := by rw [Piece.isBreak, hus p List.mem_cons_self]; rfl
    rw [List.cons_append, isCalm, hBreak, ih fun q hq => hus q (.tail _ hq)]
    rfl

theorem inner_gap (hgp : ∀ p ∈ gp, p.gap?.isSome) :
    (∀ c ∈ inner gp, IsRawGap c) ∧ (gp ≠ [] → inner gp ≠ []) := by
  constructor
  · intro c hc
    obtain ⟨p, hp, hMem⟩ := List.mem_flatMap.mp hc
    obtain ⟨d, hGap⟩ := Option.isSome_iff_exists.mp (hgp p hp)
    obtain ⟨hChars, hRaw⟩ := IsRawGap.piece hGap
    rw [hChars, List.mem_singleton] at hMem
    exact hMem ▸ hRaw
  · intro hSome
    obtain ⟨p, ps, rfl⟩ := List.exists_cons_of_ne_nil hSome
    obtain ⟨d, hGap⟩ := Option.isSome_iff_exists.mp (hgp p List.mem_cons_self)
    simp [(IsRawGap.piece hGap).1]

theorem parts_gap (hgp : ∀ p ∈ gp, p.gap?.isSome) :
    parts (gp ++ rest) = (inner gp ++ (parts rest).1, (parts rest).2) := by
  induction gp with
  | nil => rfl
  | cons p gp ih =>
    obtain ⟨d, hGap⟩ := Option.isSome_iff_exists.mp (hgp p List.mem_cons_self)
    have hTail := ih fun q hq => hgp q (.tail _ hq)
    simp [parts, hGap, hTail, (IsRawGap.piece hGap).1]

theorem points_gap (hgp : ∀ p ∈ gp, p.gap?.isSome) (hRest : StartsWord rest) :
    points (gp ++ rest) = pointsOf (foldGap (inner gp)) ++ points rest := by
  rw [points, parts_gap hgp, hRest.parts, hRest.points, List.append_nil]

theorem startsSeparator_gap {gs cs : List Char} (hgs : ∀ c ∈ gs, IsRawGap c) (hSome : gs ≠ []) :
    startsSeparator (gs ++ cs) = false := by
  obtain ⟨g, gs, rfl⟩ := List.exists_cons_of_ne_nil hSome
  have hNe : g ≠ '-' ∧ g ≠ '.' := by
    rcases hgs g List.mem_cons_self with rfl | rfl | rfl | rfl <;> decide
  rw [List.cons_append]
  unfold startsSeparator
  split
  · rename_i hEq
    obtain ⟨rfl, -⟩ := List.cons.inj hEq
    simp [hNe.1, hNe.2]
  · rfl

theorem isCalm_gap (hgp : ∀ p ∈ gp, p.gap?.isSome) (hSome : gp ≠ []) :
    isCalm (gp ++ rest) =
      (!(endsBroken (inner gp) && startsSeparator (inner rest)) && isCalm rest) := by
  induction gp with
  | nil => exact absurd rfl hSome
  | cons p gp ih =>
    obtain ⟨d, hGap⟩ := Option.isSome_iff_exists.mp (hgp p List.mem_cons_self)
    have hChars := (IsRawGap.piece hGap).1
    have hBreak : p.isBreak = Markup.isBreak d := by rw [Piece.isBreak, hGap]; rfl
    have hTail : ∀ q ∈ gp, q.gap?.isSome := fun q hq => hgp q (.tail _ hq)
    cases gp with
    | nil => simp [isCalm, hBreak, hChars, endsBroken, inner]
    | cons q gp =>
      obtain ⟨hRaw, hMore⟩ := inner_gap hTail
      have hMore := hMore (List.cons_ne_nil q gp)
      have hLast : endsBroken (d :: inner (q :: gp)) = endsBroken (inner (q :: gp)) := by
        obtain ⟨e, es, hEq⟩ := List.exists_cons_of_ne_nil hMore
        rw [hEq, endsBroken, endsBroken, List.getLast?_cons_cons]
      rw [List.cons_append, isCalm, inner_append, startsSeparator_gap hRaw hMore, Bool.and_false,
        ih hTail (List.cons_ne_nil q gp), inner_cons p, hChars, List.singleton_append, hLast]
      rfl

end

end Pieces

theorem isSeparator_cons {a b c : Char} (h : m.after = a :: b :: c :: cs) :
    m.isSeparator = (((a = '-' && b = '-' && c = '-') || (a = '.' && b = '.' && c = '.')) &&
      endsWord cs.head?) := by
  unfold Mark.isSeparator
  rw [h]
  split
  · rename_i hEq
    obtain ⟨rfl, rfl, rfl, rfl⟩ : a = '-' ∧ b = '-' ∧ c = '-' ∧ cs = _ := by simpa using hEq
    rfl
  · rename_i hEq
    obtain ⟨rfl, rfl, rfl, rfl⟩ : a = '.' ∧ b = '.' ∧ c = '.' ∧ cs = _ := by simpa using hEq
    rfl
  · rename_i hHyphens hPoints
    have hHyphens : ¬ (a = '-' ∧ b = '-' ∧ c = '-') := by
      rintro ⟨rfl, rfl, rfl⟩
      exact hHyphens _ rfl
    have hPoints : ¬ (a = '.' ∧ b = '.' ∧ c = '.') := by
      rintro ⟨rfl, rfl, rfl⟩
      exact hPoints _ rfl
    grind

/-- Before the closing quote it does not matter what follows that. -/
theorem isSeparator_inner {w : List Char} (h : m.after = w ++ '"' :: cs) :
    m.isSeparator = startsSeparator w := by
  match w with
  | [] | [_] | [_, _] =>
    unfold Mark.isSeparator
    rw [h]
    split <;> simp_all [startsSeparator]
  | [a, b, c] =>
    rw [isSeparator_cons h]
    simp [startsSeparator, endsWord, endsItem, endsLine, Markup.isBreak]
  | a :: b :: c :: d :: w =>
    rw [isSeparator_cons h]
    rfl

/-! ## Whole strings -/

/-- A string is a word, and perhaps a run of blanks and line breaks with more after it. -/
theorem exists_runs (ps : Pieces) : ∃ us vs : Pieces, ps = us ++ vs ∧ (∀ p ∈ us, p.gap? = none) ∧
    (vs = [] ∨ ∃ gp rest : Pieces, vs = gp ++ rest ∧ gp ≠ [] ∧ (∀ p ∈ gp, p.gap?.isSome) ∧
      rest.StartsWord) := by
  refine ⟨ps.takeWhile (·.gap?.isNone), ps.dropWhile (·.gap?.isNone),
    (List.takeWhile_append_dropWhile).symm, fun p hp => by simpa using List.mem_takeWhile_imp hp,
    ?_⟩
  cases hDrop : ps.dropWhile (·.gap?.isNone) with
  | nil => exact .inl rfl
  | cons p vs =>
    have hFirst : p.gap?.isSome := by
      have hNot := List.head?_dropWhile_not (fun p : Piece => p.gap?.isNone) ps
      rw [hDrop] at hNot
      simpa using hNot
    refine .inr ⟨p :: vs.takeWhile (·.gap?.isSome), vs.dropWhile (·.gap?.isSome), ?_,
      List.cons_ne_nil _ _, ?_, ?_⟩
    · rw [List.cons_append, List.takeWhile_append_dropWhile]
    · intro q hq
      rcases List.mem_cons.mp hq with rfl | hq
      · exact hFirst
      · simpa using List.mem_takeWhile_imp hq
    · intro q hq
      have hNot := List.head?_dropWhile_not (fun p : Piece => p.gap?.isSome) vs
      rw [hq] at hNot
      simpa using hNot

theorem Pieces.length_le_inner (ps : Pieces) : ps.length ≤ ps.inner.length := by
  induction ps with
  | nil => exact Nat.le_refl 0
  | cons p ps ih =>
    have hSome : 1 ≤ p.chars.length := by cases p <;> simp [Piece.chars]
    rw [Pieces.inner_cons, List.length_append, List.length_cons]
    omega

section

variable {us : Pieces} {c : Char} {fuel : Nat} (hSized : m.Sized) (hus : ∀ p ∈ us, p.gap? = none)
include hSized hus

theorem quotedWord_left (h : m.after = us.inner ++ c :: cs) (hc : endsQuotedWord c) :
    quotedWord true since m.left m = .ok (us.map Piece.point, m.skip us.inner.length) := by
  refine quotedWord_pieces since hus h hc ?_
  rw [hSized, h, List.length_append]
  exact Nat.le_trans us.length_le_inner (Nat.le_add_right _ _)

theorem quotedContents_quote (h : m.after = us.inner ++ '"' :: cs) :
    quotedContents true since (fuel + 1) m =
      .ok (us.map Piece.point, m.skip us.inner.length) := by
  have hPeek := Mark.peek_eq (Mark.skip_after h)
  rw [quotedContents, quotedWord_left hSized hus h (.inl rfl)]
  exact if_pos hPeek

theorem quotedContents_gap (h : m.after = us.inner ++ c :: cs) (hc : IsRawGap c) :
    quotedContents true since (fuel + 1) m =
      quotedSpaces since (m.skip us.inner.length) >>= fun gap =>
        (quotedContents true since fuel gap.2).map fun more =>
          (us.map Piece.point ++ pointsOf gap.1 ++ more.1, more.2) := by
  have hEnds : endsQuotedWord c := .inr (by rcases hc.cases with h | h <;> simp [h])
  have hQuote : c ≠ '"' := by
    rintro rfl
    rcases hc.cases with h | h <;> exact absurd h (by decide)
  have hPeek := Mark.peek_eq (Mark.skip_after h)
  rw [quotedContents, quotedWord_left hSized hus h hEnds]
  show (if (m.skip us.inner.length).peek = some '"' then _ else _) = _
  rw [hPeek, if_neg fun hEq => hQuote (Option.some.inj hEq)]
  refine congrArg (quotedSpaces since _ >>= ·) (funext fun gap => ?_)
  show (quotedContents true since fuel gap.2 >>= _) = _
  cases quotedContents true since fuel gap.2 <;> rfl

end

theorem quotedContents_gives (since : Mark) {ps : Pieces} {fuel : Nat} (hSized : m.Sized)
    (h : m.after = ps.inner ++ '"' :: cs) (hFuel : ps.length < fuel) :
    GivesIf ps.isCalm (ps.points, m.skip ps.inner.length) (quotedContents true since fuel m) := by
  induction fuel generalizing m ps with
  | zero => exact absurd hFuel (Nat.not_lt_zero _)
  | succ fuel ih =>
    obtain ⟨us, vs, rfl, hus, hRest⟩ := exists_runs ps
    rw [Pieces.inner_append, List.append_assoc] at h
    rw [Pieces.points_word hus, Pieces.isCalm_word hus, Pieces.inner_append, Mark.skip_append]
    rcases hRest with rfl | ⟨gp, rest, rfl, hSome, hgp, hStarts⟩
    · refine .of_eq ?_
      rw [quotedContents_quote hSized hus h]
      simp [Pieces.points, Pieces.parts, foldGap, pointsOf, Pieces.inner]
      rfl
    · obtain ⟨hRaw, hMore⟩ := Pieces.inner_gap hgp
      obtain ⟨g, gs, hInner⟩ := List.exists_cons_of_ne_nil (hMore hSome)
      have hFirst : m.after = us.inner ++ g :: (gs ++ (rest.inner ++ '"' :: cs)) := by
        rw [h, Pieces.inner_append, hInner]
        simp
      rw [quotedContents_gap hSized hus hFirst (hRaw g (by simp [hInner]))]
      have hSized := hSized.skip h
      have h := Mark.skip_after h
      rw [Pieces.inner_append, List.append_assoc] at h
      rw [Pieces.inner_append, Mark.skip_append, Pieces.points_gap hgp hStarts,
        Pieces.isCalm_gap hgp hSome, ← isSeparator_inner (Mark.skip_after h), ← List.append_assoc]
      obtain ⟨c, cs', hEq, hc⟩ := hStarts.endsGap cs
      have hGap := quotedSpaces_gives hRaw hc since hSized (by rw [h, hEq]) (hMore hSome)
      have hLength : rest.length < fuel := by
        have hPart := List.length_pos_iff.mpr hSome
        simp only [List.length_append] at hFuel
        omega
      exact hGap.bind ((ih (hSized.skip h) (Mark.skip_after h) hLength).map fun more =>
        (us.map Piece.point ++ pointsOf (foldGap gp.inner) ++ more.1, more.2))

/-- What is read of a string, with the mark after it. -/
theorem readQuoted_gives {ps : Pieces} (hSized : m.Sized) (h : m.after = ps.chars ++ cs) :
    GivesIf ps.isCalm (ps.points, m.skip ps.chars.length) (readQuoted true m) := by
  have h : m.after = '"' :: (ps.inner ++ '"' :: cs) := by
    rw [h, Pieces.chars, List.append_assoc]
    rfl
  have hFuel : ps.length < m.left + 1 := by
    have hLength := ps.length_le_inner
    rw [hSized, h, List.length_cons, List.length_append]
    omega
  have hContents := quotedContents_gives m (hSized.next h) (Mark.next_after h) hFuel
  have hRead : readQuoted true m =
      (quotedContents true m (m.left + 1) m.next).map fun x => (x.1, x.2.next) := by
    rw [readQuoted]
    cases quotedContents true m (m.left + 1) m.next <;> rfl
  rw [hRead, Pieces.chars, Mark.skip_append, Mark.skip_cons]
  exact hContents.map fun x => (x.1, x.2.next)

end EntityGraph.Json
