import EntityGraph.Proofs.Clean
import EntityGraph.Proofs.Executable.Unambiguous

/-!
# Written documents

The text of a document is put together from lines.  Between its tokens stand nothing but blanks and
line breaks, so that it reads as a document of GraphQL exactly if its tokens are those of one: then
it reads as the definitions of its fragments, and then of its blocks.  A fragment without fields is
the one thing that cannot be read, because a set of selections is not empty.

* `Spells.lines`: lines yield their tokens;
* `Fragment.tokens`, `Block.tokens`, `Document.scan_text`: the tokens of a document's text;
* `Fragment.ReadsAs`, `Block.ReadsAs`: the definitions that the parts of a document read as;
* `Document.reads_iff`, `Document.exists_reading`: what a document's text reads as;
* `mem_emptyFragment_iff`: when the audit reports a fragment without fields;
* `document_reads_iff`: the text of a document is well-formed exactly if the audit reports none.
-/

namespace EntityGraph

open Outcome Executable

namespace Executable

/-! ## Lines -/

theorem isNamePart_of_isIgnored {c : Char} (h : isIgnored c = true) :
    Schema.isNamePart c = false := by
  simp only [isIgnored, isLineEnd, Bool.or_eq_true, decide_eq_true_eq] at h
  rcases h with (((rfl | rfl) | rfl | rfl) | rfl) | rfl <;> decide

theorem Scans.blanks {blanks cs : List Char} {ts : List Token}
    (h : ∀ c ∈ blanks, isIgnored c = true) (hc : Scans cs ts) : Scans (blanks ++ cs) ts := by
  induction blanks with
  | nil => exact hc
  | cons b bs ih =>
    obtain ⟨hFirst, hRest⟩ := List.forall_mem_cons.mp h
    exact (ih hRest).blank hFirst

/-- Lines that yield their tokens, one list for each line. -/
abbrev Spells (lines : List String) (tss : List (List Token)) : Prop :=
  Scanning.Spells read? Schema.isNamePart lines tss

/-- Parts with line breaks between them yield their tokens in order. -/
theorem Spells.lines {s : String} {c : Char} {cs : List Char} (hText : s.toList = c :: cs)
    (hIgnored : (c :: cs).all isIgnored = true) {lines : List String} {tss : List (List Token)}
    (h : Spells lines tss) : Scans (s.intercalate lines).toList tss.flatten := by
  have hEach := List.all_eq_true.mp hIgnored
  have hEnds := isNamePart_of_isIgnored (hEach c List.mem_cons_self)
  have hBreak : Scanning.Separates read? Schema.isNamePart s [] :=
    ⟨⟨c, cs, hText, hEnds⟩, fun hc => hText ▸ Scans.blanks hEach hc⟩
  exact Scanning.nil_intercalate tss ▸ h.joined hBreak

/-- Margins yield no tokens. -/
theorem Spells.indent {lines : List String} {tss : List (List Token)} (h : Spells lines tss)
    (level : Nat) : Spells (Naming.indent level lines) tss := by
  refine List.forall₂_map_left_iff.mpr (h.imp fun line ts hLine => ?_)
  split
  · exact hLine
  · rw [String.toList_append, String.toList_ofList]
    refine Scans.blanks (fun c hc => ?_) hLine
    rw [List.eq_of_mem_replicate hc]
    rfl

/-- The identifiers of definitions are the names of documents. -/
theorem isName_of_isIdentifier {name : String} (h : Input.isIdentifier name = true) :
    isName name.toList = true := h

end Executable

/-! ## Fragments -/

namespace Fragment

/-- A fragment whose names are well-formed. -/
structure Named (f : Fragment) : Prop where
  name : isName f.name.toList = true
  free : f.name ≠ "on"
  type : isName f.type.toList = true
  fields : ∀ n ∈ f.fields, isName n.toList = true

def tokens (f : Fragment) : List Token :=
  [.name "fragment", .name f.name, .name "on", .name f.type] ++
    enclosed .openCurly .closeCurly (f.fields.map .name)

theorem scans_text {f : Fragment} (h : f.Named) : Scans f.text.toList f.tokens := by
  have hHeader : Scans ("fragment " ++ f.name ++ " on " ++ f.type ++ " \x7b").toList
      [.name "fragment", .name f.name, .name "on", .name f.type, .mark .openCurly] := by
    have hText : ("fragment " ++ f.name ++ " on " ++ f.type ++ " \x7b").toList =
        "fragment".toList ++ ' ' :: (f.name.toList ++ ' ' :: ("on".toList ++
          ' ' :: (f.type.toList ++ ' ' :: ['\x7b']))) := by simp
    rw [hText]
    exact .word (by decide) (.word h.name (.word (by decide) (.word h.type (.mark rfl .nil))))
  have hFields : Spells f.fields (f.fields.map fun n => [.name n]) :=
    List.forall₂_map_right_iff.mpr
      (List.forall₂_same.mpr fun n hn => Scans.single (h.fields n hn))
  have hEnd : Spells ["\x7d"] [[.mark .closeCurly]] := .cons (Scans.mark rfl .nil) .nil
  have hLines : Spells f.lines _ := .cons hHeader (List.rel_append (hFields.indent 1) hEnd)
  have hTokens : ([.name "fragment", .name f.name, .name "on", .name f.type, .mark .openCurly] ::
      ((f.fields.map fun n => [.name n]) ++ [[.mark .closeCurly]])).flatten = f.tokens := by
    simp [tokens, enclosed, ← List.flatMap_def, ← List.map_eq_flatMap]
  exact hTokens ▸ hLines.lines (s := "\n") rfl (by decide)

end Fragment

/-! ## Blocks -/

namespace Selection

/-- The tokens of what a block selects from the result of its root field. -/
def tokens (fragment : String) : Selection → List Token
  | entry => .name "entry" :: enclosed .openCurly .closeCurly [.mark .spread, .name fragment]
  | page => .name "entries" ::
      enclosed .openCurly .closeCurly [.mark .spread, .name fragment] ++ [.name "total"]

theorem spells_lines {fragment : String} (h : isName fragment.toList = true)
    (s : Selection) : ∃ tss, Spells (s.lines fragment) tss ∧ tss.flatten = s.tokens fragment := by
  have hSpread : Scans ("  ..." ++ fragment).toList [.mark .spread, .name fragment] := by
    have hText : ("  ..." ++ fragment).toList = ' ' :: ' ' :: '.' :: '.' :: '.' :: fragment.toList := by
      simp
    rw [hText]
    exact .blank rfl (.blank rfl (.spread (.single h)))
  have hClose : Scans "\x7d".toList [.mark .closeCurly] := .mark rfl .nil
  have hOpen : ∀ name : String, isName name.toList = true →
      Scans (name ++ " \x7b").toList [.name name, .mark .openCurly] := by
    intro name hName
    have hText : (name ++ " \x7b").toList = name.toList ++ ' ' :: ['\x7b'] := by simp
    rw [hText]
    exact .word hName (.mark rfl .nil)
  cases s with
  | entry =>
    exact ⟨_, .cons (hOpen "entry" (by decide)) (.cons hSpread (.cons hClose .nil)), rfl⟩
  | page =>
    exact ⟨_, .cons (hOpen "entries" (by decide)) (.cons hSpread (.cons hClose
      (.cons (Scans.single (n := "total") (by decide)) .nil))), rfl⟩

end Selection

namespace Block

/-- A block whose names are well-formed. -/
structure Named (b : Block) : Prop where
  name : isName b.name.toList = true
  inputType : isName b.inputType.toList = true
  field : isName b.field.toList = true
  fragment : isName b.fragment.toList = true
  free : b.fragment ≠ "on"

def tokens (b : Block) : List Token :=
  .name b.root.keyword :: .name b.name ::
    enclosed .openRound .closeRound
      [.mark .dollar, .name "input", .mark .colon, .name b.inputType, .mark .bang] ++
    enclosed .openCurly .closeCurly (.name b.field ::
      enclosed .openRound .closeRound
        [.name "input", .mark .colon, .mark .dollar, .name "input"] ++
      enclosed .openCurly .closeCurly (b.selection.tokens b.fragment))

theorem scans_text {b : Block} (h : b.Named) : Scans b.text.toList b.tokens := by
  have hHeader : Scans
      (b.root.keyword ++ " " ++ b.name ++ "($input: " ++ b.inputType ++ "!) \x7b").toList
      [.name b.root.keyword, .name b.name, .mark .openRound, .mark .dollar, .name "input",
        .mark .colon, .name b.inputType, .mark .bang, .mark .closeRound, .mark .openCurly] := by
    have hText :
        (b.root.keyword ++ " " ++ b.name ++ "($input: " ++ b.inputType ++ "!) \x7b").toList =
          b.root.keyword.toList ++ ' ' :: (b.name.toList ++ '(' :: '$' :: ("input".toList ++
            ':' :: ' ' :: (b.inputType.toList ++ ['!', ')', ' ', '\x7b']))) := by simp
    have hKeyword : isName b.root.keyword.toList = true := by cases b.root <;> decide
    rw [hText]
    refine .word hKeyword (.name h.name (.cons rfl _) (.mark rfl (.mark rfl ?_)))
    refine .name (by decide) (.cons rfl _) (.mark rfl (.blank rfl ?_))
    exact .name h.inputType (.cons rfl _)
      (.mark rfl (.mark rfl (.blank rfl (.mark rfl .nil))))
  have hField : Scans ("  " ++ b.field ++ "(input: $input) \x7b").toList
      [.name b.field, .mark .openRound, .name "input", .mark .colon, .mark .dollar, .name "input",
        .mark .closeRound, .mark .openCurly] := by
    have hText : ("  " ++ b.field ++ "(input: $input) \x7b").toList =
        ' ' :: ' ' :: (b.field.toList ++ '(' :: ("input".toList ++ ':' :: ' ' :: '$' ::
          ("input".toList ++ [')', ' ', '\x7b']))) := by simp
    rw [hText]
    refine .blank rfl (.blank rfl (.name h.field (.cons rfl _) (.mark rfl ?_)))
    refine .name (by decide) (.cons rfl _) (.mark rfl (.blank rfl (.mark rfl ?_)))
    exact .name (by decide) (.cons rfl _) (.mark rfl (.blank rfl (.mark rfl .nil)))
  obtain ⟨tss, hSelection, hTokens⟩ := b.selection.spells_lines h.fragment
  have hEnd : Spells ["  \x7d", "\x7d"] [[.mark .closeCurly], [.mark .closeCurly]] :=
    .cons (Scans.blank rfl (.blank rfl (.mark rfl .nil))) (.cons (Scans.mark rfl .nil) .nil)
  have hLines : Spells b.lines _ :=
    .cons hHeader (.cons hField (List.rel_append (hSelection.indent 2) hEnd))
  have hAll : Scans b.text.toList _ := hLines.lines (s := "\n") rfl (by decide)
  simpa [tokens, enclosed, ← hTokens] using hAll

end Block

/-! ## Documents -/

namespace Document

/-- A document whose names are well-formed. -/
structure Named (d : Document) : Prop where
  fragments : ∀ f ∈ d.fragments, f.Named
  blocks : ∀ b ∈ d.blocks, b.Named

theorem scan_text {d : Document} (h : d.Named) : scan d.text.toList =
    some (d.fragments.flatMap Fragment.tokens ++ d.blocks.flatMap Block.tokens) := by
  have hParts : Spells d.parts (d.fragments.map Fragment.tokens ++ d.blocks.map Block.tokens) :=
    List.rel_append
      (List.forall₂_map_left_iff.mpr (List.forall₂_map_right_iff.mpr
        (List.forall₂_same.mpr fun f hf => f.scans_text (h.fragments f hf))))
      (List.forall₂_map_left_iff.mpr (List.forall₂_map_right_iff.mpr
        (List.forall₂_same.mpr fun b hb => b.scans_text (h.blocks b hb))))
  have hBody := hParts.lines (s := "\n\n") rfl (by decide)
  rw [List.flatten_append, ← List.flatMap_def, ← List.flatMap_def] at hBody
  have hText : Scans d.text.toList
      (d.fragments.flatMap Fragment.tokens ++ d.blocks.flatMap Block.tokens) := by
    simp only [text]
    split
    · rename_i hEmpty
      rwa [String.isEmpty_iff.mp hEmpty] at hBody
    · have hEnd : Scans ['\n'] [] := Scans.blank rfl .nil
      simpa using hBody.append hEnd (.cons rfl _)
  exact hText.scan_eq

end Document

/-! ## Readings -/

namespace Executable

/-- The selection of a field by its name alone. -/
def leaf (name : String) : Selection := .field none name [] [] []

theorem listTokens_leaves (names : List String) :
    Selection.listTokens (names.map leaf) = names.map .name := by
  induction names with
  | nil => rfl
  | cons n ns ih => rw [List.map_cons, Selection.listTokens, ih]; rfl

/-- No set of selections is empty: a selection starts with a name or a spread. -/
theorem selected_ne {directives : List Directive} {selections : SelectionSet}
    {rest rest' : List Token} :
    directives.flatMap Directive.tokens ++ (selections.tokens ++ rest) ≠
      .mark .openCurly :: .mark .closeCurly :: rest' := by
  intro h
  cases directives with
  | cons d ds => simp [Directive.tokens] at h
  | nil =>
    obtain ⟨ss, hSome⟩ := selections
    obtain ⟨s, others, rfl⟩ := List.exists_cons_of_ne_nil hSome
    obtain ⟨t, ts, hTokens, hStart⟩ := s.tokens_start
    simp only [List.flatMap_nil, List.nil_append, SelectionSet.tokens, enclosed,
      Selection.listTokens, hTokens, List.cons_append, List.cons.injEq, true_and] at h
    rcases hStart with ⟨n, rfl⟩ | rfl <;> cases h.1

theorem forall₂_comp {α β γ : Type} {r : α → β → Prop} {s : β → γ → Prop} {xs : List α}
    {ys : List β} {zs : List γ} (hr : List.Forall₂ r xs ys) (hs : List.Forall₂ s ys zs) :
    List.Forall₂ (fun x z => ∃ y, r x y ∧ s y z) xs zs := by
  induction hr generalizing zs with
  | nil =>
    cases hs
    exact .nil
  | cons hFirst _ ih =>
    cases hs with
    | cons hNext hLater => exact .cons ⟨_, hFirst, hNext⟩ (ih hLater)

theorem exists_forall₂_iff {α β : Type} {r : α → β → Prop} {xs : List α} :
    (∃ ys, List.Forall₂ r xs ys) ↔ ∀ x ∈ xs, ∃ y, r x y := by
  induction xs with
  | nil => simp
  | cons x xs ih =>
    rw [List.forall_mem_cons, ← ih]
    constructor
    · rintro ⟨_, _ | ⟨hFirst, hLater⟩⟩
      exact ⟨⟨_, hFirst⟩, _, hLater⟩
    · rintro ⟨⟨y, hy⟩, ys, hys⟩
      exact ⟨y :: ys, .cons hy hys⟩

theorem flatMap_tokens {α : Type} {f : α → List Token} {xs : List α} {ds : List Definition}
    (h : List.Forall₂ (fun x d => d.tokens = f x) xs ds) :
    ds.flatMap Definition.tokens = xs.flatMap f := by
  induction h with
  | nil => rfl
  | cons hFirst _ ih => rw [List.flatMap_cons, List.flatMap_cons, hFirst, ih]

end Executable

namespace Fragment

/-- The definition that a fragment reads as: of its name, on its type, selecting its fields in order
by their names alone. -/
def ReadsAs (f : Fragment) : Definition → Prop
  | .fragment name type directives selections =>
    name.1 = f.name ∧ type = f.type ∧ directives = [] ∧ selections.1 = f.fields.map leaf
  | _ => False

theorem ReadsAs.tokens {f : Fragment} {d : Definition} (h : f.ReadsAs d) : d.tokens = f.tokens := by
  cases d with
  | fragment name type directives selections =>
    obtain ⟨hName, rfl, rfl, hSelections⟩ := h
    simp only [Definition.tokens, SelectionSet.tokens, hName, hSelections, listTokens_leaves]
    rfl
  | _ => cases h

/-- A fragment reads as a definition if it has fields. -/
theorem exists_readsAs_iff {f : Fragment} (hName : f.name ≠ "on") :
    (∃ d, f.ReadsAs d) ↔ f.fields ≠ [] := by
  constructor
  · rintro ⟨d, h⟩ hNone
    cases d with
    | fragment name type directives selections =>
      obtain ⟨-, -, -, hSelections⟩ := h
      exact selections.2 (by rw [hSelections, hNone]; rfl)
    | _ => cases h
  · exact fun hFields => ⟨.fragment ⟨f.name, hName⟩ f.type [] ⟨f.fields.map leaf, by simpa using hFields⟩,
      rfl, rfl, rfl, rfl⟩

/-- The tokens of a fragment without fields start no document. -/
theorem fields_ne_nil {f : Fragment} {rest : List Token} {ds : List Definition}
    (h : f.tokens ++ rest = ds.flatMap Definition.tokens) : f.fields ≠ [] := by
  intro hNone
  simp only [tokens, enclosed, hNone, List.map_nil, List.nil_append, List.cons_append] at h
  cases ds with
  | nil => cases h
  | cons d ds =>
    rw [List.flatMap_cons] at h
    cases d with
    | operation keyword =>
      simp [Definition.tokens, keyword.text_ne.symm] at h
    | query => simp [Definition.tokens, SelectionSet.tokens, enclosed] at h
    | fragment name type directives selections =>
      simp only [Definition.tokens, List.append_assoc, List.cons_append, List.cons.injEq,
        true_and] at h
      exact selected_ne h.2.2.symm

/-- Fragments at the start of a document read as its first definitions. -/
theorem read_all {fs : List Fragment} (hFree : ∀ f ∈ fs, f.name ≠ "on") {rest : List Token}
    {ds : List Definition} (h : fs.flatMap tokens ++ rest = ds.flatMap Definition.tokens) :
    ∃ es later, ds = es ++ later ∧ List.Forall₂ ReadsAs fs es ∧
      rest = later.flatMap Definition.tokens := by
  induction fs generalizing ds with
  | nil => exact ⟨[], ds, rfl, .nil, h⟩
  | cons f fs ih =>
    obtain ⟨hFirst, hLater⟩ := List.forall_mem_cons.mp hFree
    rw [List.flatMap_cons, List.append_assoc] at h
    obtain ⟨e, he⟩ := (exists_readsAs_iff hFirst).mpr (fields_ne_nil h)
    rw [← he.tokens, ← List.flatMap_singleton Definition.tokens e] at h
    obtain ⟨others, rfl, hOthers⟩ := definitions_prefix h
    obtain ⟨es, later, rfl, hAll, hRest⟩ := ih hLater hOthers
    exact ⟨e :: es, later, rfl, .cons he hAll, hRest⟩

end Fragment

/-- What a block selects from the result of its root field, spreading a fragment over its
entities. -/
def Selection.selected (fragment : FragmentName) : Selection → List Executable.Selection
  | .entry => [.field none "entry" [] [] [.spread fragment []]]
  | .page => [.field none "entries" [] [] [.spread fragment []], leaf "total"]

theorem Selection.listTokens_selected (fragment : FragmentName) (s : Selection) :
    Executable.Selection.listTokens (s.selected fragment) = s.tokens fragment.1 := by
  cases s <;> rfl

namespace Block

/-- The definition that a block reads as: an operation with one variable, which selects its root
field with the variable as the input, and of the result what the block selects. -/
def ReadsAs (b : Block) : Definition → Prop
  | .operation keyword name? parameters directives selections =>
    keyword.text = b.root.keyword ∧ name? = some b.name ∧
      parameters = [⟨"input", .named b.inputType true, none, []⟩] ∧ directives = [] ∧
      ∃ fragment : FragmentName, fragment.1 = b.fragment ∧ selections.1 =
        [.field none b.field [("input", .variable "input")] [] (b.selection.selected fragment)]
  | _ => False

theorem ReadsAs.tokens {b : Block} {d : Definition} (h : b.ReadsAs d) : d.tokens = b.tokens := by
  cases d with
  | operation keyword name? parameters directives selections =>
    obtain ⟨hKeyword, rfl, rfl, rfl, fragment, hFragment, hSelections⟩ := h
    have hGroup : group .openCurly .closeCurly (b.selection.tokens b.fragment) =
        enclosed .openCurly .closeCurly (b.selection.tokens b.fragment) := by
      cases b.selection <;> rfl
    have hVariables : group .openRound .closeRound ([(⟨"input", .named b.inputType true, none, []⟩ :
        Variable)].flatMap Variable.tokens) = enclosed .openRound .closeRound
          [.mark .dollar, .name "input", .mark .colon, .name b.inputType, .mark .bang] := rfl
    have hArguments : Arguments.tokens [("input", .variable "input")] =
        enclosed .openRound .closeRound [.name "input", .mark .colon, .mark .dollar, .name "input"] :=
      rfl
    simp only [Definition.tokens, SelectionSet.tokens, hKeyword, hSelections,
      Executable.Selection.listTokens, Executable.Selection.tokens, Selection.listTokens_selected,
      hFragment, hGroup, hVariables, hArguments]
    simp [Block.tokens, aliasTokens]
  | _ => cases h

theorem exists_readsAs {b : Block} (hFragment : b.fragment ≠ "on") : ∃ d, b.ReadsAs d := by
  obtain ⟨keyword, hKeyword⟩ : ∃ keyword : Keyword, keyword.text = b.root.keyword := by
    cases b.root
    · exact ⟨.query, rfl⟩
    · exact ⟨.mutation, rfl⟩
  exact ⟨.operation keyword (some b.name) [⟨"input", .named b.inputType true, none, []⟩] []
    ⟨[.field none b.field [("input", .variable "input")] []
      (b.selection.selected ⟨b.fragment, hFragment⟩)], by simp⟩,
    hKeyword, rfl, rfl, rfl, ⟨b.fragment, hFragment⟩, rfl, rfl⟩

end Block

theorem operations_filter (models : List Model) :
    Schema.RootFields.operations (models.filter Model.hasOperations) =
      Schema.RootFields.operations models := by
  induction models with
  | nil => rfl
  | cons m ms ih =>
    unfold Schema.RootFields.operations at ih ⊢
    cases hSome : m.hasOperations with
    | true => rw [List.filter_cons_of_pos hSome, List.flatMap_cons, List.flatMap_cons, ih]
    | false =>
      have hNone : m.operations = [] := by simpa [Model.hasOperations] using hSome
      rw [List.filter_cons_of_neg (by simp [hSome]), List.flatMap_cons, hNone, ih]
      rfl

theorem Block.ofOperation_eq_ok {m : Model} {o : Operation} {b : Block} :
    Block.ofOperation m o = .ok b ↔ ∃ kind, o.kind? = .ok kind ∧
      b = ⟨kind.root, Naming.block m.name kind, Naming.inputType m.name kind,
        Naming.rootField o.name m.name, if kind = .list then .page else .entry,
        Naming.fragment m.name⟩ := by
  refine bind_eq_ok.trans (exists_congr fun kind => and_congr_right fun _ => ?_)
  rw [pure_eq_ok]
  exact eq_comm

namespace Document

/-- The text of a document reads as the definitions of its fragments and then of its blocks, and as
nothing else. -/
theorem reads_iff {d : Document} (h : d.Named) {ds : List Definition} :
    Reads d.text ds ↔ ds ≠ [] ∧ ∃ fs bs, ds = fs ++ bs ∧
      List.Forall₂ Fragment.ReadsAs d.fragments fs ∧ List.Forall₂ Block.ReadsAs d.blocks bs := by
  refine and_congr_right fun _ => ?_
  rw [scan_text h, Option.some.injEq]
  obtain ⟨bs, hBlocks⟩ : ∃ bs, List.Forall₂ Block.ReadsAs d.blocks bs :=
    exists_forall₂_iff.mpr fun b hb => Block.exists_readsAs (h.blocks b hb).free
  constructor
  · intro hTokens
    obtain ⟨fs, later, rfl, hFragments, hLater⟩ :=
      Fragment.read_all (fun f hf => (h.fragments f hf).free) hTokens
    rw [← flatMap_tokens (hBlocks.imp fun _ _ hb => hb.tokens)] at hLater
    obtain rfl := definitions_inj hLater
    exact ⟨fs, bs, rfl, hFragments, hBlocks⟩
  · rintro ⟨fs, bs, rfl, hFragments, hBlocks⟩
    rw [List.flatMap_append, flatMap_tokens (hFragments.imp fun _ _ hf => hf.tokens),
      flatMap_tokens (hBlocks.imp fun _ _ hb => hb.tokens)]

/-- It reads as a document if it has a part and all its fragments have fields. -/
theorem exists_reads_iff {d : Document} (h : d.Named) :
    (∃ ds, Reads d.text ds) ↔ d.parts ≠ [] ∧ ∀ f ∈ d.fragments, f.fields ≠ [] := by
  have hFields : (∃ fs, List.Forall₂ Fragment.ReadsAs d.fragments fs) ↔
      ∀ f ∈ d.fragments, f.fields ≠ [] :=
    exists_forall₂_iff.trans (forall₂_congr fun f hf =>
      Fragment.exists_readsAs_iff (h.fragments f hf).free)
  have hParts : ∀ {fs bs}, List.Forall₂ Fragment.ReadsAs d.fragments fs →
      List.Forall₂ Block.ReadsAs d.blocks bs → (fs ++ bs ≠ [] ↔ d.parts ≠ []) := by
    intro fs bs hfs hbs
    rw [List.ne_nil_iff_length_pos, List.ne_nil_iff_length_pos]
    simp [parts, hfs.length_eq, hbs.length_eq]
  rw [← hFields]
  constructor
  · rintro ⟨ds, hReads⟩
    obtain ⟨hSome, fs, bs, rfl, hfs, hbs⟩ := (reads_iff h).mp hReads
    exact ⟨(hParts hfs hbs).mp hSome, fs, hfs⟩
  · rintro ⟨hSome, fs, hfs⟩
    obtain ⟨bs, hbs⟩ : ∃ bs, List.Forall₂ Block.ReadsAs d.blocks bs :=
      exists_forall₂_iff.mpr fun b hb => Block.exists_readsAs (h.blocks b hb).free
    exact ⟨fs ++ bs, (reads_iff h).mpr ⟨(hParts hfs hbs).mpr hSome, fs, bs, rfl, hfs, hbs⟩⟩

/-- A document of well-formed entities: their fragments, and the blocks of their operations. -/
theorem ofModels_spec {models : List Model} {d : Document} (h : ofModels models = .ok d) :
    d.fragments = (models.filter Model.hasOperations).map Fragment.ofModel ∧
      List.Forall₂ (fun mo b => Block.ofOperation mo.1 mo.2 = .ok b)
        (Schema.RootFields.operations models) d.blocks := by
  obtain ⟨blocks, hBlocks, hEq⟩ := bind_eq_ok.mp h
  obtain rfl := pure_eq_ok.mp hEq
  refine ⟨rfl, ?_⟩
  rw [← operations_filter, Schema.RootFields.operations, List.flatMap_def]
  refine List.rel_flatten (List.forall₂_map_left_iff.mpr ((mapM_eq_ok.mp hBlocks).imp ?_))
  exact fun m bs hModel => List.forall₂_map_left_iff.mpr (mapM_eq_ok.mp hModel)

theorem fragment_ne_on (model : String) : Naming.fragment model ≠ "on" := by
  intro h
  have hLength := congrArg (List.length ∘ String.toList) h
  simp [Naming.fragment] at hLength

/-- The names in a document of well-formed entities are well-formed. -/
theorem named_ofModels {models : List Model} (hWell : ∀ m ∈ models, m.WellFormed) {d : Document}
    (h : ofModels models = .ok d) : d.Named := by
  obtain ⟨hFragments, hBlocks⟩ := ofModels_spec h
  have hFragment : ∀ m : Model, m.WellFormed → isName (Naming.fragment m.name).toList = true :=
    fun m hm => isName_of_isIdentifier (isIdentifier_append hm.name (by decide))
  constructor
  · intro f hf
    obtain ⟨m, hm, rfl⟩ := List.mem_map.mp (hFragments ▸ hf)
    have hModel := hWell m (List.mem_of_mem_filter hm)
    refine ⟨hFragment m hModel, fragment_ne_on _, isName_of_isIdentifier hModel.name,
      fun n hn => ?_⟩
    obtain ⟨p, hp, rfl⟩ := List.mem_map.mp hn
    exact isName_of_isIdentifier (hModel.properties p hp).1
  · intro b hb
    obtain ⟨mo, hmo, hBlock⟩ : ∃ mo ∈ Schema.RootFields.operations models,
        Block.ofOperation mo.1 mo.2 = .ok b := mapM_mem (mapM_eq_ok.mpr hBlocks) hb
    obtain ⟨m, hm, hOperation⟩ := List.mem_flatMap.mp hmo
    obtain ⟨o, ho, rfl⟩ := List.mem_map.mp hOperation
    obtain ⟨kind, -, rfl⟩ := Block.ofOperation_eq_ok.mp hBlock
    have hModel := hWell m hm
    have hLabel : Input.isIdentifier kind.label = true := by cases kind <;> decide
    exact
      { name := isName_of_isIdentifier (isIdentifier_append hLabel hModel.name)
        inputType := isName_of_isIdentifier
          (isIdentifier_append (isIdentifier_append hModel.name hLabel) (by decide))
        field := isName_of_isIdentifier
          (isIdentifier_append (hModel.operations o ho).name hModel.name)
        fragment := hFragment m hModel
        free := fragment_ne_on _ }

/-- A document without fragments is the empty text. -/
theorem text_eq_empty_iff {models : List Model} {d : Document} (hNamed : d.Named)
    (h : ofModels models = .ok d) : d.text = "" ↔ ∀ m ∈ models, m.operations = [] := by
  obtain ⟨hFragments, hBlocks⟩ := ofModels_spec h
  constructor
  · intro hText m hm
    have hTokens := scan_text hNamed
    rw [hText, String.toList_empty, scan, Scanning.scan_nil, hFragments] at hTokens
    have hNone := (List.append_eq_nil_iff.mp (Option.some.inj hTokens).symm).1
    by_contra hSome
    have hShown : m ∈ models.filter Model.hasOperations :=
      List.mem_filter.mpr ⟨hm, Model.hasOperations_iff.mpr hSome⟩
    cases List.flatMap_eq_nil_iff.mp hNone _ (List.mem_map_of_mem hShown)
  · intro hNone
    have hShown : models.filter Model.hasOperations = [] :=
      List.filter_eq_nil_iff.mpr fun m hm hSome => Model.hasOperations_iff.mp hSome (hNone m hm)
    have hOperations : Schema.RootFields.operations models = [] := by
      rw [← operations_filter, hShown]
      rfl
    rw [hOperations, List.forall₂_nil_left_iff] at hBlocks
    rw [hShown] at hFragments
    simp [text, parts, hFragments, hBlocks]

/-- If all its fragments have fields, a document that is not empty has one reading: the definitions
of its fragments and then of its blocks. -/
theorem exists_reading {d : Document} (hNamed : d.Named) (hSome : d.text ≠ "")
    (hFields : ∀ f ∈ d.fragments, f.fields ≠ []) :
    ∃ fs bs, Reads d.text (fs ++ bs) ∧ (∀ ds, Reads d.text ds → ds = fs ++ bs) ∧
      List.Forall₂ Fragment.ReadsAs d.fragments fs ∧ List.Forall₂ Block.ReadsAs d.blocks bs := by
  have hParts : d.parts ≠ [] := fun hNone => hSome (by rw [text, hNone]; rfl)
  obtain ⟨ds, hReads⟩ := (exists_reads_iff hNamed).mpr ⟨hParts, hFields⟩
  obtain ⟨-, fs, bs, rfl, hfs, hbs⟩ := (reads_iff hNamed).mp hReads
  exact ⟨fs, bs, hReads, fun ds hOther => hOther.unique hReads, hfs, hbs⟩

end Document

/-! ## What the audit says -/

theorem Audit.Concern.code_eq_emptyFragment {c : Audit.Concern} :
    c.finding.code = "EMPTY_FRAGMENT" ↔ ∃ model, c = .emptyFragment model := by
  cases c <;> simp [finding, code]

/-- What the audit says about the operations of one entity. -/
theorem Audit.emptyFragment_mem_iff {m : Model} {cs : List Audit.Concern}
    (h : Audit.operationsOf m = .ok cs) {model : String} :
    .emptyFragment model ∈ cs ↔ model = m.name ∧ m.operations ≠ [] ∧ m.properties = [] := by
  obtain ⟨kinds, -, hEq⟩ := bind_eq_ok.mp h
  obtain rfl := pure_eq_ok.mp hEq
  rw [List.mem_append]
  cases m.operations <;> cases m.properties <;> simp

/-- The audit reports a fragment without fields if an entity has operations and no properties. -/
theorem mem_emptyFragment_iff {models : List Model} {concerns : List Audit.Concern}
    (h : Audit.operations models = .ok concerns) :
    "EMPTY_FRAGMENT" ∈ (Audit.findings concerns).map (·.code) ↔
      ∃ m ∈ models, m.operations ≠ [] ∧ m.properties = [] := by
  obtain ⟨found, hFound, hEq⟩ := bind_eq_ok.mp h
  obtain rfl := pure_eq_ok.mp hEq
  simp only [Audit.findings, List.map_map, List.mem_map, Function.comp_apply,
    Audit.Concern.code_eq_emptyFragment, List.mem_flatten]
  constructor
  · rintro ⟨_, ⟨cs, hcs, hMem⟩, model, rfl⟩
    obtain ⟨m, hm, hModel⟩ := mapM_mem hFound hcs
    exact ⟨m, hm, ((Audit.emptyFragment_mem_iff hModel).mp hMem).2⟩
  · rintro ⟨m, hm, hShown, hNone⟩
    obtain ⟨cs, hcs, hModel⟩ := mem_mapM hFound hm
    exact ⟨_, ⟨cs, hcs, (Audit.emptyFragment_mem_iff hModel).mpr ⟨rfl, hShown, hNone⟩⟩, _, rfl⟩

/-- The document of well-formed entities is empty exactly if none of them has operations.  If it is
not, it reads as a document exactly if the audit reports no fragment without fields, and then it
reads as one fragment for each entity with operations, which selects the properties in order, and
after them as one operation for each operation. -/
theorem document_reads_iff {models : List Model} (hWell : ∀ m ∈ models, m.WellFormed) :
    ∃ d concerns, (Document.build models).value = .ok d ∧ Audit.operations models = .ok concerns ∧
      (d.text = "" ↔ ∀ m ∈ models, m.operations = []) ∧
      (d.text ≠ "" →
        ((∃ ds, Reads d.text ds) ↔ "EMPTY_FRAGMENT" ∉ (Audit.findings concerns).map (·.code)) ∧
        ∀ ds, Reads d.text ds → ∃ fs bs, ds = fs ++ bs ∧
          List.Forall₂ (fun m e => (Fragment.ofModel m).ReadsAs e)
            (models.filter Model.hasOperations) fs ∧
          List.Forall₂ (fun mo e => ∃ b, Block.ofOperation mo.1 mo.2 = .ok b ∧ b.ReadsAs e)
            (Schema.RootFields.operations models) bs) := by
  obtain ⟨d, hDoc⟩ := document_ok hWell
  obtain ⟨concerns, hConcerns⟩ :=
    Audit.operations_ok fun m hm o ho => ((hWell m hm).operations o ho).kind
  obtain ⟨hFragments, hBlocks⟩ := Document.ofModels_spec hDoc
  have hNamed := Document.named_ofModels hWell hDoc
  have hEmpty := Document.text_eq_empty_iff hNamed hDoc
  refine ⟨d, concerns, by simp [Document.build, hDoc], hConcerns, hEmpty, fun hSome => ⟨?_, ?_⟩⟩
  · have hParts : d.parts ≠ [] := fun hNone => hSome (by rw [Document.text, hNone]; rfl)
    rw [Document.exists_reads_iff hNamed, and_iff_right hParts, mem_emptyFragment_iff hConcerns,
      hFragments]
    constructor
    · rintro hFields ⟨m, hm, hShown, hNone⟩
      have hMem : m ∈ models.filter Model.hasOperations :=
        List.mem_filter.mpr ⟨hm, by simpa [Model.hasOperations] using hShown⟩
      refine hFields _ (List.mem_map_of_mem hMem) ?_
      simp [Fragment.ofModel, Model.propertyNames, hNone]
    · intro hAll f hf hNone
      obtain ⟨m, hm, rfl⟩ := List.mem_map.mp hf
      obtain ⟨hMem, hShown⟩ := List.mem_filter.mp hm
      exact hAll ⟨m, hMem, by simpa [Model.hasOperations] using hShown,
        by simpa [Fragment.ofModel, Model.propertyNames] using hNone⟩
  · intro ds hReads
    obtain ⟨-, fs, bs, rfl, hfs, hbs⟩ := (Document.reads_iff hNamed).mp hReads
    rw [hFragments, List.forall₂_map_left_iff] at hfs
    exact ⟨fs, bs, rfl, hfs, forall₂_comp hBlocks hbs⟩

/-- Fields may be named by the words that the grammar uses. -/
def wordModel : Model := ⟨"Word", [⟨"on", "ID", false, true, false, []⟩,
  ⟨"query", "ID", false, true, false, []⟩, ⟨"true", "ID", false, true, false, []⟩], [],
  [⟨"fragment", "Show", [], []⟩, ⟨"on", "List", [], []⟩]⟩

theorem wordModel_reads : (∀ m ∈ [wordModel], m.WellFormed) ∧
    ∃ d ds, (Document.build [wordModel]).value = .ok d ∧ Reads d.text ds ∧ ds.length = 3 := by
  have hWell : ∀ m ∈ [wordModel], m.WellFormed := by
    intro m hm
    obtain rfl := List.mem_singleton.mp hm
    refine ⟨by decide, fun p hp => ?_, by simp [wordModel], fun o ho => ?_⟩
    · simp only [wordModel, List.mem_cons, List.not_mem_nil, or_false] at hp
      rcases hp with rfl | rfl | rfl <;> exact ⟨by decide, by decide⟩
    · simp only [wordModel, List.mem_cons, List.not_mem_nil, or_false] at ho
      rcases ho with rfl | rfl
      · exact ⟨by decide, ⟨.view, rfl⟩, by simp⟩
      · exact ⟨by decide, ⟨.list, rfl⟩, by simp⟩
  obtain ⟨d, concerns, hBuild, hConcerns, hEmpty, hReadings⟩ := document_reads_iff hWell
  have hSome : d.text ≠ "" := fun hText => by
    have hNone := hEmpty.mp hText wordModel (.head _)
    simp [wordModel] at hNone
  obtain ⟨hIff, hParts⟩ := hReadings hSome
  obtain ⟨ds, hReads⟩ := hIff.mpr (by simp [mem_emptyFragment_iff hConcerns, wordModel])
  obtain ⟨fs, bs, rfl, hfs, hbs⟩ := hParts ds hReads
  refine ⟨hWell, d, fs ++ bs, hBuild, hReads, ?_⟩
  rw [List.length_append, ← hfs.length_eq, ← hbs.length_eq]
  rfl

end EntityGraph
