import EntityGraph.Proofs.Json.Values
import EntityGraph.Proofs.Reporting

/-!
# JSON as definitions

What the text of a JSON document is read as, and when this is what the document denotes.  A document
is refused if it has a tab between two tokens, a name too far from its colon, a document separator
after a line break in a string, a character that no text may have, or an integer with too many
digits, or if it is nested deeper than the stack allows.  Every other document is read; a number
with an exponent that lacks a point or a sign is read as a text, and halves of pairs and line breaks
in strings are read otherwise than JSON has them.

* `Document.isReadable`, `Document.reading`: the documents that are read, and what they are read as;
* `fidelity`: the condition under which this is what they denote;
* `Document.parse_ends`: the value of the text of a document;
* `parse_differs`: a refusal of a text is no outcome of a value;
* `Document.text_outcome`: the definitions of the text of a document.
-/

namespace EntityGraph.Json

open Markup

/-! ## Readable documents -/

namespace Document

/-- A document whose text can be read. -/
def isReadable [Limits] (d : Document) : Bool :=
  d.chars.all isAllowed && (d.isLaid && d.tree.depth ≤ Limits.nodes) && d.tree.obeys shortness

/-- What a document is read as. -/
def reading (d : Document) : Value := d.tree.valueIn readings

end Document

theorem checkCharacters_ends (cs : List Char) :
    Ends (fun _ => cs.all isAllowed = false) (fun _ => cs.all isAllowed = true)
      (checkCharacters cs) := by
  rw [checkCharacters]
  cases hAll : cs.all isAllowed with
  | true =>
    rw [List.takeWhile_eq_self_iff.mpr (List.all_eq_true.mp hAll), List.drop_length]
    exact .ok rfl
  | false =>
    split
    · rename_i hNone
      have hGood : cs.takeWhile isAllowed = cs :=
        (List.takeWhile_prefix isAllowed).eq_of_length_le (List.drop_eq_nil_iff.mp hNone)
      rw [List.all_eq_true.mpr (List.takeWhile_eq_self_iff.mp hGood)] at hAll
      cases hAll
    · exact .error rfl

/-- The text of a document is read, or refused. -/
theorem Document.parse_ends [Limits] (d : Document) :
    Ends (fun _ => d.isReadable = false) (fun v => d.isReadable = true ∧ v = d.reading)
      (parse d.text) := by
  have hChars : d.text.toList = d.chars := String.toList_ofList
  rw [parse, hChars]
  obtain ⟨hFails, hAllowed⟩ := checkCharacters_ends d.chars
  obtain ⟨hFails', hReads⟩ := d.graph_read
  refine .bind (Q := fun _ => d.chars.all isAllowed = true)
    ⟨hFails.mono fun _ hAll => by simp [isReadable, hAll], hAllowed⟩ fun _ hAll => ?_
  refine .bind (Q := fun x => (d.isLaid && d.tree.depth ≤ Limits.nodes) = true ∧
      ∃ g, x = some (0, g) ∧ d.tree.IsGraph g)
    ⟨hFails'.mono fun _ hLaid => by rw [isReadable, hLaid, Bool.and_false, Bool.false_and],
      hReads⟩ fun x hx => ?_
  obtain ⟨hLaid, g, rfl, hGraph⟩ := hx
  obtain ⟨hFails'', hValue⟩ := Tree.graph_value hGraph
  refine ⟨hFails''.mono fun _ hLong => by simp [isReadable, hLong], fun v hv => ?_⟩
  obtain ⟨hShort, hEq⟩ := hValue v hv
  exact ⟨by rw [isReadable, hAll, hLaid, hShort]; rfl, hEq⟩

/-! ## Fidelity -/

/-- The condition under which strings and numbers are read as what they denote. -/
def fidelity : Rules where
  string ps := Pieces.points ps == paired (ps.map Piece.point)
  number n := n.isWhole || n.isPointed

theorem Document.reading_eq (d : Document) (h : d.tree.obeys fidelity = true) :
    d.reading = d.value := by
  refine Tree.valueIn_congr (fun ps hString => ?_) (fun n hNumber => ?_) d.tree h
  · exact congrArg Value.ofPoints (eq_of_beq hString)
  · show n.reading = n.value
    unfold Number.reading Number.value
    cases hWhole : n.isWhole with
    | true => rfl
    | false =>
      have hPointed : n.isPointed = true := by simpa [fidelity, hWhole] using hNumber
      simp [hPointed]

/-! ## Outcomes -/

/-- Violations that lie within a value. -/
def Located (vs : List Violation) : Prop := ∀ v ∈ vs, v.path ≠ []

section

variable {α β : Type}

theorem located_under {step : Step} {c : Checked α} : FailsBy Located (Checked.under step c) := by
  cases c with
  | ok a => exact .ok a
  | error vs =>
    refine FailsBy.error_iff.mpr fun v hv => ?_
    obtain ⟨w, -, rfl⟩ := List.mem_map.mp hv
    exact List.cons_ne_nil _ _

theorem located_both {c : Checked α} {c' : Checked β} (h : FailsBy Located c)
    (h' : FailsBy Located c') : FailsBy Located (Checked.both c c') := by
  cases c with
  | ok a =>
    cases c' with
    | ok b => exact .ok _
    | error ws => exact FailsBy.error_iff.mpr (h' ws rfl)
  | error vs =>
    cases c' with
    | ok b => exact FailsBy.error_iff.mpr (h vs rfl)
    | error ws => exact FailsBy.error_iff.mpr (List.forall_mem_append.mpr ⟨h vs rfl, h' ws rfl⟩)

theorem located_all {cs : List (Checked α)} (h : ∀ c ∈ cs, FailsBy Located c) :
    FailsBy Located (Checked.all cs) := by
  induction cs with
  | nil => exact .ok []
  | cons c cs ih =>
    exact (located_both (h c List.mem_cons_self) (ih fun c hc => h c (.tail _ hc))).map

theorem located_readField {f : Input.Field α} {es : List (Value × Value)} :
    FailsBy Located (Input.Record.readField f es) := by
  unfold Input.Record.readField
  split
  · exact located_under
  · exact .ite located_under (.ok _)

theorem located_checkKeys {fields : List (Input.Field α)} {es : List (Value × Value)} :
    FailsBy Located (Input.Record.checkKeys fields es) := by
  unfold Input.Record.checkKeys
  split
  · exact .ok ()
  · refine FailsBy.error_iff.mpr fun v hv => ?_
    obtain ⟨e, -, hKey⟩ := List.mem_filterMap.mp hv
    unfold Input.Record.keyViolation? at hKey
    split at hKey
    · split at hKey
      · cases hKey
      · exact Option.some.inj hKey ▸ List.cons_ne_nil _ _
    · exact Option.some.inj hKey ▸ List.cons_ne_nil _ _

theorem located_definitions (v : Value) :
    FailsBy Located (Definitions.read (Value.record [("models", v)])) := by
  refine FailsBy.map (?_ : FailsBy Located (Definitions.record.readEntries [(.text "models", v)]))
  refine (located_both (located_all fun c hc => ?_) located_checkKeys).map
  obtain ⟨f, -, rfl⟩ := List.mem_map.mp hc
  exact located_readField

end

/-- What a value is refused for lies within it, or is the type of the whole. -/
theorem check_located (raw : Value) :
    FailsBy (fun vs => Located vs ∨ ∃ typeName, vs = [⟨[], .notDefinitions typeName⟩])
      (Input.check raw) := by
  have hParts : ∀ models config, FailsBy Located (Input.checkParts models config) :=
    fun models config => located_both (located_definitions models) located_under
  refine .bind ?_ fun parts => (hParts parts.1 parts.2).mono fun _ => .inl
  unfold Input.split
  split
  · exact .ok _
  · split
    · exact .ok _
    · refine FailsBy.error_iff.mpr (.inl fun v hv => ?_)
      exact List.mem_singleton.mp hv ▸ List.cons_ne_nil _ _
  · exact FailsBy.error_iff.mpr (.inr ⟨_, rfl⟩)

/-- The failure of a text is no outcome of a value. -/
theorem parse_differs [Limits] {text : String} {f : Failure} (h : Markup.parse text = .error f)
    (raw : Value) : (Input.parse raw).value ≠ .error f := by
  intro hSame
  obtain ⟨vs, rfl⟩ := parse_reported raw f hSame
  rcases Markup.parse_expected text _ h with ⟨reason, hReason⟩ | hRaised
  · obtain rfl := Failure.invalidDefinitions.inj hReason
    have hCheck : Input.check raw = .error [⟨[], .unreadableText reason⟩] := by
      have hMap : (Input.check raw).mapError Failure.invalidDefinitions = _ := hSame
      cases hChecked : Input.check raw with
      | ok read =>
        rw [hChecked] at hMap
        cases hMap
      | error vs =>
        rw [hChecked] at hMap
        exact congrArg Except.error (Failure.invalidDefinitions.inj (Except.error.inj hMap))
    rcases check_located raw _ hCheck with hLocated | ⟨typeName, hType⟩
    · exact hLocated _ List.mem_cons_self rfl
    · cases hType
  · exact not_raised_invalidDefinitions vs hRaised

/-- The definitions of the text of a readable document are those of what it is read as; any other
document is refused.  So a text has the outcome that its document has exactly if the document is
readable and is read as something with that outcome, which is so if strings and numbers are read as
what they denote. -/
theorem Document.text_outcome [Limits] (d : Document) :
    (d.isReadable = true → Markup.parse d.text = .ok d.reading ∧
      Input.parseText d.text = Input.parse d.reading) ∧
    (d.isReadable = false →
      ∃ f, Markup.parse d.text = .error f ∧ (Input.parseText d.text).value = .error f) ∧
    (Markup.parse d.text = .ok d.value ↔ d.isReadable = true ∧ d.reading = d.value) ∧
    ((Input.parseText d.text).value = (Input.parse d.value).value ↔
      d.isReadable = true ∧ (Input.parse d.reading).value = (Input.parse d.value).value) ∧
    (d.tree.obeys fidelity = true → d.reading = d.value) := by
  obtain ⟨hFails, hReads⟩ := d.parse_ends
  have hReadable : d.isReadable = true → Markup.parse d.text = .ok d.reading ∧
      Input.parseText d.text = Input.parse d.reading := by
    intro hReadable
    cases hParse : Markup.parse d.text with
    | ok v =>
      obtain rfl := (hReads v hParse).2
      exact ⟨rfl, by rw [Input.parseText, hParse]⟩
    | error f =>
      have hNot : d.isReadable = false := hFails f hParse
      rw [hReadable] at hNot
      cases hNot
  have hRefused : d.isReadable = false →
      ∃ f, Markup.parse d.text = .error f ∧ (Input.parseText d.text).value = .error f := by
    intro hNot
    cases hParse : Markup.parse d.text with
    | ok v =>
      rw [(hReads v hParse).1] at hNot
      cases hNot
    | error f => exact ⟨f, rfl, by rw [Input.parseText, hParse]; rfl⟩
  refine ⟨hReadable, hRefused, ⟨fun hParse => ?_, ?_⟩, ⟨fun hSame => ?_, ?_⟩, d.reading_eq⟩
  · obtain ⟨hTrue, hEq⟩ := hReads _ hParse
    exact ⟨hTrue, hEq.symm⟩
  · rintro ⟨hTrue, hEq⟩
    rw [(hReadable hTrue).1, hEq]
  · cases hIs : d.isReadable with
    | true =>
      rw [(hReadable hIs).2] at hSame
      exact ⟨rfl, hSame⟩
    | false =>
      obtain ⟨f, hParse, hError⟩ := hRefused hIs
      exact absurd (hSame.symm.trans hError) (parse_differs hParse d.value)
  · rintro ⟨hTrue, hSame⟩
    rw [(hReadable hTrue).2, hSame]

/-! ## A number with a bare exponent -/

/-- A string whose characters stand for themselves. -/
def piecesOf (s : String) : Pieces :=
  s.toList.filterMap fun c => if h : isUnescaped c = true then some (.plain c h) else none

def Tree.text (s : String) : Tree := .string (piecesOf s)

theorem paired_pointsOf (cs : List Char) : paired (pointsOf cs) = pointsOf cs := by
  induction cs with
  | nil => simp [paired, pointsOf]
  | cons c cs ih =>
    cases cs with
    | nil => simp [paired, pointsOf]
    | cons c' cs => simpa [paired, pointsOf] using ih

/-- Such a string denotes its characters. -/
theorem piecesOf_value {s : String} (h : s.toList.all isUnescaped = true) :
    (piecesOf s).value = .text s := by
  have hPoints : ∀ cs : List Char, cs.all isUnescaped = true →
      (cs.filterMap fun c => if h : isUnescaped c = true then some (.plain c h) else none).map
        Piece.point = pointsOf cs := fun cs hAll => by
    induction cs with
    | nil => rfl
    | cons c cs ih =>
      rw [List.all_cons, Bool.and_eq_true] at hAll
      simp only [List.filterMap_cons, hAll.1, dif_pos, List.map_cons, ih hAll.2]
      rfl
  rw [Pieces.value, piecesOf, hPoints _ h, paired_pointsOf, ofPoints_pointsOf, String.ofList_toList]

/-- A list with one item. -/
def Tree.only (item : Tree) : Tree := .array (.last [] item [])

/-- An object with members that have no blanks around them. -/
def Tree.record (name : String) (item : Tree) : List (String × Tree) → Tree :=
  fun rest => .object (members name item rest)
where
  members (name : String) (item : Tree) : List (String × Tree) → Members
    | [] => .last ⟨[], piecesOf name, []⟩ [] item []
    | (name', item') :: rest => .cons ⟨[], piecesOf name, []⟩ [] item [] (members name' item' rest)

/-- One, times ten to the third. -/
def thousand : Number :=
  ⟨false, .row ⟨0, by decide⟩ [], none, some ⟨false, none, ⟨⟨3, by decide⟩, []⟩⟩⟩

/-- An entity that is made with so many pages at most. -/
def boundedBook : Document where
  before := []
  tree := .only (.record "name" (.text "Book") [
    ("properties", .only (.record "name" (.text "title") [("type", .text "String")])),
    ("operations", .only (.record "name" (.text "add") [("type", .text "Create"),
      ("arguments", .only (.record "name" (.text "pages") [("type", .text "Int"),
        ("validators", .only (.record "type" (.text "Max") [
          ("properties", .record "max" (.number thousand) [])]))]))]))])
  after := []

/-- The entity with a value for the bound. -/
def bookBoundedBy (max : Value) : Model :=
  ⟨"Book", [⟨"title", "String", false, true, false, []⟩], [],
    [⟨"add", "Create", [⟨"pages", "Int", false, true, [⟨"Max", [(.text "max", max)]⟩]⟩], []⟩]⟩

/-- What the document denotes. -/
theorem boundedBook_value : boundedBook.value =
    .list [Value.record [("name", .text "Book"),
      ("properties", .list [Value.record [("name", .text "title"), ("type", .text "String")]]),
      ("operations", .list [Value.record [("name", .text "add"), ("type", .text "Create"),
        ("arguments", .list [Value.record [("name", .text "pages"), ("type", .text "Int"),
          ("validators", .list [Value.record [("type", .text "Max"),
            ("properties",
              Value.record [("max", .float (Binary64.ofDecimal false 1 3))])]])]])]])]] := by
  simp (disch := decide) only [boundedBook, Document.value, Tree.only, Tree.record,
    Tree.record.members, Tree.text, Tree.valueIn, Items.valuesIn, Members.valuesIn, senses,
    piecesOf_value]
  rfl

set_option maxRecDepth 8000 in
/-- The document denotes a number as the bound, but its text is read with a text in its place. -/
theorem boundedBook_misread :
    (Input.parse boundedBook.value).value =
        .ok (.ofModels [bookBoundedBy (.float (Binary64.ofDecimal false 1 3))], {}) ∧
      (Input.parseText boundedBook.text).value =
        .ok (.ofModels [bookBoundedBy (.text "1e3")], {}) := by
  have hReadable : boundedBook.isReadable = true := by rfl
  refine ⟨?_, ?_⟩
  · rw [boundedBook_value]
    rfl
  · rw [(boundedBook.text_outcome.1 hReadable).2]
    rfl

end EntityGraph.Json
