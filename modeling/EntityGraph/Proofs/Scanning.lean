import Mathlib.Data.List.Forall2

/-!
# Scanning

A text is split into tokens from the left.  A reader looks at the start of a text and says which
tokens stand there, and how many characters they take; blanks yield none.  Some tokens go on as long
as they can, so that what such a token ends with depends on the character after it.

* `Reader`, `scan`: the tokens of a text;
* `Ends`: a text that does not go on with a token before it;
* `Scans`: a text that yields its tokens before every such text;
* `Spells`, `Spells.joined`: texts with separators between them.
-/

namespace EntityGraph.Scanning

variable {τ : Type}

/-- The tokens at the start of a text, and the number of their characters after the first. -/
abbrev Reader (τ : Type) := Char → List Char → Option (List τ × Nat)

/-- The tokens of a text, if a reader finds some all along. -/
def scan (reader : Reader τ) : List Char → Option (List τ)
  | [] => some []
  | c :: cs =>
    match reader c cs with
    | none => none
    | some (ts, n) => (scan reader (cs.drop n)).map (ts ++ ·)
termination_by cs => cs.length
decreasing_by exact Nat.lt_succ_of_le (List.drop_suffix _ _).length_le

theorem scan_nil (reader : Reader τ) : scan reader [] = some [] := by rw [scan]

theorem scan_cons {reader : Reader τ} {c : Char} {cs : List Char} {ts : List τ} {n : Nat}
    (h : reader c cs = some (ts, n)) :
    scan reader (c :: cs) = (scan reader (cs.drop n)).map (ts ++ ·) := by
  rw [scan, h]

/-- A text that does not go on with a token before it. -/
def Ends (goesOn : Char → Bool) (cs : List Char) : Prop := ∀ c ∈ cs.head?, goesOn c = false

namespace Ends

variable {goesOn : Char → Bool}

theorem nil : Ends goesOn [] := by simp [Ends]

theorem cons {c : Char} (h : goesOn c = false) (cs : List Char) : Ends goesOn (c :: cs) := by
  simpa [Ends] using h

theorem append {cs ds : List Char} (hc : Ends goesOn cs) (hd : Ends goesOn ds) :
    Ends goesOn (cs ++ ds) := by
  cases cs with
  | nil => exact hd
  | cons c cs => exact hc

/-- What may go on with a token ends before what does not. -/
theorem takeWhile {w cs : List Char} (hw : ∀ c ∈ w, goesOn c = true) (h : Ends goesOn cs) :
    (w ++ cs).takeWhile goesOn = w := by
  rw [List.takeWhile_append_of_pos hw]
  cases cs with
  | nil => simp
  | cons c cs => simp [h c rfl]

end Ends

/-- A text that yields these tokens before everything that does not go on with its last one. -/
def Scans (reader : Reader τ) (goesOn : Char → Bool) (cs : List Char) (ts : List τ) : Prop :=
  ∀ rest, Ends goesOn rest → scan reader (cs ++ rest) = (scan reader rest).map (ts ++ ·)

namespace Scans

variable {reader : Reader τ} {goesOn : Char → Bool} {cs ds : List Char} {ts us : List τ}

theorem nil : Scans reader goesOn [] [] := by
  intro rest _
  cases hRest : scan reader rest <;> simp [hRest]

theorem append (hc : Scans reader goesOn cs ts) (hd : Scans reader goesOn ds us)
    (hEnds : Ends goesOn ds) : Scans reader goesOn (cs ++ ds) (ts ++ us) := by
  intro rest hRest
  rw [List.append_assoc, hc _ (hEnds.append hRest), hd rest hRest, Option.map_map]
  simp [Function.comp_def]

/-- A token of known length, whatever comes after it. -/
theorem cons {c : Char} {w : List Char}
    (hc : Scans reader goesOn cs ts) (us : List τ)
    (h : ∀ rest, Ends goesOn rest → reader c (w ++ (cs ++ rest)) = some (us, w.length)) :
    Scans reader goesOn (c :: (w ++ cs)) (us ++ ts) := by
  intro rest hRest
  rw [List.cons_append, List.append_assoc, scan_cons (h rest hRest), List.drop_left,
    hc rest hRest, Option.map_map]
  simp [Function.comp_def]

/-- All tokens of a text. -/
theorem scan_eq (h : Scans reader goesOn cs ts) : scan reader cs = some ts := by
  simpa [scan_nil] using h [] .nil

end Scans

/-! ## Separators -/

section

variable (reader : Reader τ) (goesOn : Char → Bool)

/-- Texts that yield their tokens, one list for each text. -/
def Spells (parts : List String) (tss : List (List τ)) : Prop :=
  List.Forall₂ (fun part ts => Scans reader goesOn part.toList ts) parts tss

/-- A separator ends the token before it, and yields its tokens before any text. -/
structure Separates (sep : String) (us : List τ) : Prop where
  ends : ∃ c cs, sep.toList = c :: cs ∧ goesOn c = false
  yields : ∀ {cs ts}, Scans reader goesOn cs ts → Scans reader goesOn (sep.toList ++ cs) (us ++ ts)

end

variable {reader : Reader τ} {goesOn : Char → Bool}

/-- Texts with separators between them yield their tokens, and those of the separators between
them. -/
theorem Spells.joined {sep : String} {us : List τ} (hSep : Separates reader goesOn sep us)
    {parts : List String} {tss : List (List τ)} (h : Spells reader goesOn parts tss) :
    Scans reader goesOn (sep.intercalate parts).toList (us.intercalate tss) := by
  induction h with
  | nil => exact .nil
  | @cons part ts parts tss hPart hParts ih =>
    cases hParts with
    | nil => simpa using hPart
    | @cons next ts' parts tss hNext hLater =>
      have hJoined : (sep.intercalate (part :: next :: parts)).toList =
          part.toList ++ (sep.toList ++ (sep.intercalate (next :: parts)).toList) := by
        rw [String.intercalate_cons_cons, String.toList_append, String.toList_append,
          List.append_assoc]
      obtain ⟨c, cs, hText, hEnds⟩ := hSep.ends
      rw [hJoined, List.intercalate_cons_cons, List.append_assoc]
      exact hPart.append (hSep.yields ih) (hText ▸ .cons hEnds _)

theorem nil_intercalate (tss : List (List τ)) : [].intercalate tss = tss.flatten := by
  induction tss with
  | nil => rfl
  | cons ts tss ih =>
    cases tss with
    | nil => simp
    | cons us tss => simp [List.intercalate_cons_cons, ih]

end EntityGraph.Scanning
