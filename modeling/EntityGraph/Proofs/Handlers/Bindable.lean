import EntityGraph.Proofs.Compilation
import EntityGraph.Proofs.Exposure
import EntityGraph.Proofs.Handlers.Closed
import EntityGraph.Proofs.Handlers.Path
import EntityGraph.Proofs.Segments

/-!
# Names that a module can bind

The names of classes, of attributes and of methods are made of letters, digits and underscores, and
none of them is a keyword.  The name of a method starts with the label of its kind.  The others start
with the first letter or digit of the entity's name, because casing drops the underscores before it.
An identifier may start with underscores and a digit, and then they start with the digit, so that
they are no identifiers any more and the module is not well-formed.

* `leadsWithDigit`: a name whose first letter or digit is a digit;
* `runs_head`, `head_pascalCase`, `head_snakeCase`: the first character of a casing;
* `entityNames`: the names that are derived from an entity's name;
* `Piece.isWellFormed_iff`: when the contribution of an entity is well-formed;
* `names_bindable_iff`: which derived names can be bound.
-/

namespace EntityGraph

open Naming Outcome

/-! ## Identifiers -/

/-- Of characters that may go on an identifier, all but the digits may start one. -/
theorem isIdentifier_iff_head {name : String}
    (h : ∀ c ∈ name.toList, Input.isIdentifierPart c = true) :
    Input.isIdentifier name = true ↔ ∃ c ∈ name.toList.head?, c.isDigit = false := by
  unfold Input.isIdentifier
  cases hChars : name.toList with
  | nil => simp
  | cons c cs =>
    rw [hChars] at h
    obtain ⟨hFirst, hRest⟩ := List.forall_mem_cons.mp h
    have hStart : Input.isIdentifierStart c = true ↔ c.isDigit = false := by
      simp only [Input.isIdentifierStart, Input.isIdentifierPart, Char.isAlphanum, Bool.or_eq_true,
        decide_eq_true_eq] at hFirst ⊢
      constructor
      · rintro (hLetter | rfl)
        · exact alphanum_forall (P := fun c => c.isAlpha = true → c.isDigit = false)
            (by decide) (by simp [Char.isAlphanum, hLetter]) hLetter
        · rfl
      · intro hDigit
        rcases hFirst with (hLetter | hDigit') | hLine
        · exact .inl hLetter
        · exact absurd hDigit' (by simp [hDigit])
        · exact .inr hLine
    simp only [List.all_eq_true.mpr hRest, Bool.and_true, List.head?_cons, Option.mem_def,
      Option.some.injEq, exists_eq_left']
    exact hStart

/-! ## First characters -/

namespace Naming

/-- A name whose first letter or digit is a digit. -/
def leadsWithDigit (name : String) : Bool := (name.toList.find? isWordChar).any Char.isDigit

/-- The first run of a name starts with its first letter or digit. -/
theorem runs_head (division : Division) (name : List Char) :
    (runs division name = [] ∧ name.find? isWordChar = none) ∨
      ∃ c run others, runs division name = (c :: run) :: others ∧
        c.isAlphanum = true ∧ name.find? isWordChar = some c := by
  have hAll := flatten_runs division name
  rw [← List.head?_filter, ← hAll]
  cases hRuns : runs division name with
  | nil => exact .inl ⟨rfl, rfl⟩
  | cons run others =>
    obtain ⟨hSome, hChars⟩ := runs_spec division name run (hRuns ▸ List.mem_cons_self)
    obtain ⟨c, rest, rfl⟩ := List.exists_cons_of_ne_nil hSome
    exact .inr ⟨c, rest, others, rfl, hChars c List.mem_cons_self, rfl⟩

theorem isDigit_toUpper {c : Char} (h : c.isAlphanum = true) :
    c.toLower.toUpper.isDigit = c.isDigit :=
  alphanum_forall (P := fun c => c.toLower.toUpper.isDigit = c.isDigit) (by decide) h

/-- A name in Pascal case starts with a digit if the first letter or digit of the name is one. -/
theorem head_pascalCase (name : String) : ((pascalCase name).toList.head?).map Char.isDigit =
    (name.toList.find? isWordChar).map Char.isDigit := by
  rw [pascalCase, String.toList_ofList, pascalChars, words]
  rcases runs_head startsWord name.toList with ⟨hRuns, hFirst⟩ | ⟨c, run, others, hRuns, hc, hFirst⟩
  · rw [hRuns, hFirst]
    rfl
  · rw [hRuns, hFirst]
    exact congrArg some (isDigit_toUpper hc)

/-- So does a name whose segments are joined by underscores. -/
theorem head_snakeCase (name : String) : ((snakeCase name).toList.head?).map Char.isDigit =
    (name.toList.find? isWordChar).map Char.isDigit := by
  rw [snakeCase, String.toList_ofList, segments]
  rcases runs_head startsSegment name.toList with
    ⟨hRuns, hFirst⟩ | ⟨c, run, others, hRuns, hc, hFirst⟩
  · rw [hRuns, hFirst]
    rfl
  · rw [hRuns, hFirst]
    cases others <;> exact congrArg some (isDigit_toLower hc)

theorem part_of_pascalCase {name : String} :
    ∀ c ∈ (pascalCase name).toList, Input.isIdentifierPart c = true := by
  intro c hc
  simp [Input.isIdentifierPart, mem_pascalCase hc]

theorem part_of_snakeCase {name : String} :
    ∀ c ∈ (snakeCase name).toList, Input.isIdentifierPart c = true := by
  intro c hc
  rcases mem_snakeCase hc with hWord | rfl
  · simp [Input.isIdentifierPart, hWord]
  · rfl

theorem isIdentifier_pascalCase {name : String} : Input.isIdentifier (pascalCase name) = true ↔
    (name.toList.find? isWordChar).map Char.isDigit = some false := by
  rw [isIdentifier_iff_head part_of_pascalCase, ← head_pascalCase, Option.map_eq_some_iff]
  rfl

theorem isIdentifier_snakeCase {name : String} : Input.isIdentifier (snakeCase name) = true ↔
    (name.toList.find? isWordChar).map Char.isDigit = some false := by
  rw [isIdentifier_iff_head part_of_snakeCase, ← head_snakeCase, Option.map_eq_some_iff]
  rfl

/-- A word after a name is only looked at if the name has no letter and no digit. -/
theorem first_append {name : String} (word : String) {c : Char} {rest : List Char}
    (hWord : word.toList = c :: rest) (hc : isWordChar c = true) (hLetter : c.isDigit = false) :
    ((name ++ word).toList.find? isWordChar).map Char.isDigit = some false ↔
      leadsWithDigit name = false := by
  rw [String.toList_append, List.find?_append, leadsWithDigit, hWord, List.find?_cons_of_pos hc]
  cases name.toList.find? isWordChar with
  | none => simp [hLetter]
  | some d => simp

/-! ## Derived names -/

variable {model operation : String}

theorem isIdentifier_resolverClass :
    Input.isIdentifier (resolverClass model) = true ↔ leadsWithDigit model = false :=
  isIdentifier_pascalCase.trans (first_append "Resolver" rfl (by decide) (by decide))

theorem isIdentifier_serviceClass :
    Input.isIdentifier (serviceClass model) = true ↔ leadsWithDigit model = false :=
  isIdentifier_pascalCase.trans (first_append "Service" rfl (by decide) (by decide))

theorem isIdentifier_serviceAttribute :
    Input.isIdentifier (serviceAttribute model) = true ↔ leadsWithDigit model = false := by
  have hAll : (serviceClass model).toList.find? isWordChar = (serviceClass model).toList.head? := by
    have hWord : ∀ c ∈ (serviceClass model).toList, isWordChar c = true :=
      fun c hc => mem_pascalCase hc
    rw [← List.head?_filter, List.filter_eq_self.mpr hWord]
  rw [← first_append "Service" rfl (by decide) (by decide), ← head_pascalCase]
  rw [serviceAttribute, isIdentifier_snakeCase, hAll]
  rfl

theorem isIdentifier_resolverMethod (kind : Kind) :
    Input.isIdentifier (resolverMethod kind operation) = true := by
  have hChars : (kind.label ++ "_" ++ operation).toList =
      kind.label.toList ++ '_' :: operation.toList := by simp
  rw [resolverMethod, isIdentifier_snakeCase, hChars]
  cases kind <;> rfl

end Naming

namespace Handlers

variable {model operation : String}

/-- The names that are derived from an entity's name alone. -/
def entityNames (model : String) : List String :=
  [resolverClass model, serviceClass model, serviceAttribute model]

/-- Each of them ends in a word that is the end of no keyword. -/
theorem not_keyword_of_suffix {name : String} (word : String)
    (hName : word.toList <:+ name.toList)
    (hWord : ∀ k ∈ "" :: keywords, ¬ word.toList <:+ k.toList) : name ≠ "" ∧ name ∉ keywords :=
  ⟨fun hEmpty => hWord "" (.head _) (hEmpty ▸ hName), fun hMem => hWord _ (.tail _ hMem) hName⟩

theorem entityNames_not_keyword :
    ∀ name ∈ entityNames model, name ≠ "" ∧ name ∉ keywords := by
  intro name hName
  simp only [entityNames, List.mem_cons, List.not_mem_nil, or_false] at hName
  rcases hName with rfl | rfl | rfl
  · refine not_keyword_of_suffix "Resolver" ?_ (by decide)
    rw [toList_resolverClass]
    exact List.suffix_append _ _
  · refine not_keyword_of_suffix "Service" ?_ (by decide)
    rw [toList_serviceClass]
    exact List.suffix_append _ _
  · exact not_keyword_of_suffix "service" (serviceSegment_suffix model) (by decide)

theorem entityNames_identifier : ∀ name ∈ entityNames model,
    (∀ c ∈ name.toList, Input.isIdentifierPart c = true) ∧
      (Input.isIdentifier name = true ↔ leadsWithDigit model = false) := by
  intro name hName
  simp only [entityNames, List.mem_cons, List.not_mem_nil, or_false] at hName
  rcases hName with rfl | rfl | rfl
  · exact ⟨fun c => part_of_pascalCase c, isIdentifier_resolverClass⟩
  · exact ⟨fun c => part_of_pascalCase c, isIdentifier_serviceClass⟩
  · exact ⟨fun c => part_of_snakeCase c, isIdentifier_serviceAttribute⟩

theorem entityNames_bindable : ∀ name ∈ entityNames model,
    (isIdentifier name = true ↔ leadsWithDigit model = false) := by
  intro name hName
  obtain ⟨hParts, hIdentifier⟩ := entityNames_identifier name hName
  exact (isIdentifier_iff hParts (entityNames_not_keyword name hName).2).trans hIdentifier

theorem resolverMethod_not_keyword (kind : Kind) : resolverMethod kind operation ∉ keywords := by
  intro hMem
  have hLabels : ∀ k ∈ keywords, k.toList.takeWhile (· ≠ '_') ≠ lower kind.label.toList := by
    cases kind <;> decide
  exact hLabels _ hMem (label_of_resolverMethod kind operation)

/-! ## Contributions -/

theorem isQuotable_of_part {cs : List Char} (h : ∀ c ∈ cs, Input.isIdentifierPart c = true) :
    isQuotable cs = true := by
  induction cs with
  | nil => rfl
  | cons c cs ih =>
    obtain ⟨hFirst, hRest⟩ := List.forall_mem_cons.mp h
    have hPlain : c ≠ '\\' ∧ c ≠ '"' ∧ c ≠ '\n' ∧ c ≠ '\r' := by
      refine ⟨?_, ?_, ?_, ?_⟩ <;> rintro rfl <;> cases hFirst
    rw [isQuotable]
    · simp [hPlain, ih hRest]
    · exact fun hEq => absurd hEq hPlain.1
    · exact fun _ _ hEq => absurd hEq hPlain.1

/-- A name without a small letter at its start is no reserved word, so that it may be bound. -/
theorem isIdentifier_capital {word : String} (h : isCapitalWord word = true) :
    isIdentifier word = true := by
  obtain ⟨hChars, hNames, hHead⟩ := isCapitalWord_spec h
  have hSmall : reservedWords.all (fun k => k.toList.head?.any Char.isLower) = true := by decide
  have hFree : reservedWords.contains word = false := by
    refine Bool.eq_false_iff.mpr fun hMem => ?_
    have hAny := List.all_eq_true.mp hSmall word (List.contains_iff_mem.mp hMem)
    rw [Option.any_eq_true] at hAny
    obtain ⟨c, hc, hLower⟩ := hAny
    simp [hHead c hc] at hLower
  unfold isIdentifier
  cases hWord : word.toList with
  | nil => simp [hWord, Expression.wordNames] at hNames
  | cons c cs =>
    rw [hWord] at hChars hNames
    obtain ⟨hFirst, hRest⟩ := List.forall_mem_cons.mp hChars
    have hDigit : c.isDigit = false := by
      refine Bool.eq_false_iff.mpr fun hDigit => ?_
      simp [Expression.wordNames, hDigit] at hNames
    have hStart : startsName c = true := by
      have hAlpha : c.isAlpha = true := by simpa [Char.isAlphanum, hDigit] using hFirst
      simp [startsName, hAlpha]
    have hParts : cs.all continuesName = true := List.all_eq_true.mpr fun d hd => by
      simp [continuesName, hRest d hd]
    simp only [hStart, hParts, hFree, Bool.not_false, Bool.and_self]

/-- Handlers of an entity whose operations have identifiers as names. -/
theorem HandlerClass.isWellFormed_iff {m : Model} (h : m.WellFormed) {c : HandlerClass}
    (hClass : Piece.classOf m = .ok c) :
    c.isWellFormed = true ↔ leadsWithDigit m.name = false := by
  obtain ⟨xs, hAll, rfl⟩ := Piece.classOf_eq_ok.mp hClass
  have hEach : ∀ x ∈ xs, isIdentifier x.1.name = true ∧ isQuotable x.2.field.toList = true := by
    intro x hx
    obtain ⟨o, ho, hHandlers⟩ := mapM_mem hAll hx
    obtain ⟨kind, -, rfl⟩ := Piece.handlersOf_eq_ok.mp hHandlers
    refine ⟨(isIdentifier_iff part_of_snakeCase (resolverMethod_not_keyword kind)).mpr
      (isIdentifier_resolverMethod kind), isQuotable_of_part ?_⟩
    exact part_of_isIdentifier (isIdentifier_append (h.operations o ho).name h.name)
  have hMethods : (xs.map (·.1)).all (fun m => isIdentifier m.name) = true := by
    rw [List.all_map]
    exact List.all_eq_true.mpr fun x hx => (hEach x hx).1
  have hBindings : (xs.map (·.2)).all (fun b => isQuotable b.field.toList) = true := by
    rw [List.all_map]
    exact List.all_eq_true.mpr fun x hx => (hEach x hx).2
  rw [HandlerClass.isWellFormed, hMethods, hBindings]
  simp only [List.all_cons, List.all_nil, Bool.and_true, Bool.and_eq_true,
    entityNames_bindable (resolverClass m.name) (.head _),
    entityNames_bindable (serviceClass m.name) (.tail _ (.head _)),
    entityNames_bindable (serviceAttribute m.name) (.tail _ (.tail _ (.head _))), and_self]

/-- The contribution of an entity to a module is well-formed exactly if its name does not lead with a
digit. -/
theorem Piece.isWellFormed_iff [Limits] {package validators : String} {m : Model} (h : m.WellFormed)
    {p : Piece} (hPiece : Piece.ofModel package validators m = .ok p)
    (hPackage : (settlePath? package).isSome = true)
    (hValidators : (settlePath? validators).isSome = true) :
    p.isWellFormed = true ↔ leadsWithDigit m.name = false := by
  obtain ⟨ss, c, -, hClass, rfl⟩ := Piece.ofModel_eq_ok.mp hPiece
  have hKinds : ((m.operations.flatMap Piece.validatorsOf).map fun av =>
      (⟨validators, av.2.kind⟩ : Import)).all Import.isWellFormed = true := by
    refine List.all_eq_true.mpr fun i hi => ?_
    obtain ⟨av, hav, rfl⟩ := List.mem_map.mp hi
    obtain ⟨o, ho, hMem⟩ := List.mem_flatMap.mp hav
    obtain ⟨a, ha, -, hv⟩ := Piece.mem_validatorsOf.mp hMem
    have hKind := ((h.operations o ho).arguments a ha).validators _ hv
    simp [Import.isWellFormed, hValidators, isIdentifier_capital (kind_isCapitalWord hKind)]
  have hService : (Piece.serviceImport package m).isWellFormed = true ↔
      leadsWithDigit m.name = false := by
    have hMember : serviceAttribute m.name ∈ entityNames m.name := .tail _ (.tail _ (.head _))
    have hSome : (serviceAttribute m.name).toList ≠ [] := fun hNil =>
      (entityNames_not_keyword _ hMember).1 (String.toList_inj.mp hNil)
    have hPath := settlePath?_member hPackage (entityNames_identifier _ hMember).1 hSome
    simp only [Import.isWellFormed, Piece.serviceImport, Bool.and_eq_true, hPath,
      entityNames_bindable _ hMember,
      entityNames_bindable (serviceClass m.name) (.tail _ (.head _)), and_self]
  rw [Piece.isWellFormed, Piece.importsOf, List.all_cons, hKinds, Bool.and_true, Bool.and_eq_true,
    hService, HandlerClass.isWellFormed_iff h hClass, and_self]

end Handlers

/-! ## Names that cannot be bound -/

/-- Identifiers whose first letter or digit is a digit have underscores before it. -/
theorem leadsWithDigit_iff {name : String} (h : Input.isIdentifier name = true) :
    leadsWithDigit name = true ↔ ∃ n c rest, c.isDigit = true ∧
      name.toList = List.replicate (n + 1) '_' ++ c :: rest := by
  have hParts := part_of_isIdentifier h
  unfold leadsWithDigit
  rw [Option.any_eq_true]
  constructor
  · rintro ⟨c, hFirst, hDigit⟩
    obtain ⟨-, before, rest, hChars, hBefore⟩ := List.find?_eq_some_iff_append.mp hFirst
    have hLines : ∀ d ∈ before, d = '_' := by
      intro d hd
      have hPart := hParts d (hChars ▸ List.mem_append_left _ hd)
      have hNot := hBefore d hd
      have hOther : d.isAlphanum = false := by simpa [isWordChar] using hNot
      simpa [Input.isIdentifierPart, hOther] using hPart
    rw [List.eq_replicate_of_mem hLines] at hChars
    cases hLength : before.length with
    | zero =>
      rw [hLength] at hChars
      have hHead := (isIdentifier_iff_head hParts).mp h
      simp [hChars, hDigit] at hHead
    | succ n => exact ⟨n, c, rest, hDigit, hLength ▸ hChars⟩
  · rintro ⟨n, c, rest, hDigit, hChars⟩
    have hWord : isWordChar c = true := by simp [isWordChar, Char.isAlphanum, hDigit]
    refine ⟨c, ?_, hDigit⟩
    rw [hChars, List.find?_append, List.find?_cons_of_pos hWord]
    simp [isWordChar]

/-- The names of the classes and of the attribute can be bound exactly if the entity's name does not
lead with a digit, as an identifier does if underscores and a digit are at its start.  They are never
empty and never keywords.  The name of a method can always be bound.  So the contribution of an
entity is well-formed exactly if its name does not lead with a digit. -/
theorem names_bindable_iff [Limits] {model : String} (hModel : Input.isIdentifier model = true)
    (operation : String) (kind : Kind) :
    (∀ name ∈ Handlers.entityNames model, name ≠ "" ∧ name ∉ Handlers.keywords ∧
      (Handlers.IsBindable name ↔ leadsWithDigit model = false)) ∧
    Handlers.IsBindable (resolverMethod kind operation) ∧
    (leadsWithDigit model = true ↔ ∃ n c rest, c.isDigit = true ∧
      model.toList = List.replicate (n + 1) '_' ++ c :: rest) ∧
    ∀ m : Model, m.name = model → m.WellFormed → ∀ package validators p,
      (Handlers.settlePath? package).isSome = true →
      (Handlers.settlePath? validators).isSome = true →
      Handlers.Piece.ofModel package validators m = .ok p →
      (p.isWellFormed = true ↔ leadsWithDigit model = false) := by
  refine ⟨fun name hName => ?_, ?_, leadsWithDigit_iff hModel, ?_⟩
  · obtain ⟨hSome, hFree⟩ := Handlers.entityNames_not_keyword name hName
    exact ⟨hSome, hFree, (and_iff_left hFree).trans (Handlers.entityNames_identifier name hName).2⟩
  · exact ⟨isIdentifier_resolverMethod kind, Handlers.resolverMethod_not_keyword kind⟩
  · rintro m rfl hWell package validators p hPackage hValidators hPiece
    exact Handlers.Piece.isWellFormed_iff hWell hPiece hPackage hValidators

/-- An entity whose name is an identifier with a digit after an underscore. -/
def numberedShelf : Model := ⟨"_1Shelf", [], [], [⟨"get", "Show", [], []⟩]⟩

/-- Its classes and the attribute of its service cannot be bound, and its contribution is not
well-formed. -/
theorem numberedShelf_not_bindable :
    Input.isIdentifier "_1Shelf" = true ∧ resolverClass "_1Shelf" = "1ShelfResolver" ∧
    serviceAttribute "_1Shelf" = "1_shelf_service" ∧
    ¬ Handlers.IsBindable "1ShelfResolver" ∧ ¬ Handlers.IsBindable "1_shelf_service" ∧
    ∃ p, Handlers.Piece.ofModel "services" "validation" numberedShelf = .ok p ∧
      p.isWellFormed = false := by
  have hName : Input.isIdentifier "_1Shelf" = true := by decide
  have hClass : resolverClass "_1Shelf" = "1ShelfResolver" := by decide
  have hAttribute : serviceAttribute "_1Shelf" = "1_shelf_service" := by decide
  have hDigit : leadsWithDigit "_1Shelf" = true := by decide
  have hWell : numberedShelf.WellFormed := by
    refine ⟨hName, by simp [numberedShelf], by simp [numberedShelf], fun o ho => ?_⟩
    obtain rfl := List.mem_singleton.mp ho
    exact ⟨by decide, ⟨.view, by rfl⟩, by simp⟩
  obtain ⟨p, hPiece⟩ : ∃ p, Handlers.Piece.ofModel "services" "validation" numberedShelf = .ok p :=
    ⟨_, rfl⟩
  obtain ⟨hNames, -, -, hPieces⟩ := names_bindable_iff hName "get" .view
  have hBad : ∀ name ∈ Handlers.entityNames "_1Shelf", ¬ Handlers.IsBindable name := by
    intro name hMem hBindable
    rw [(hNames name hMem).2.2, hDigit] at hBindable
    cases hBindable
  refine ⟨hName, hClass, hAttribute, hClass ▸ hBad _ (.head _), ?_, p, hPiece, ?_⟩
  · exact hAttribute ▸ hBad _ (.tail _ (.tail _ (.head _)))
  · refine Bool.eq_false_iff.mpr fun hFormed => ?_
    rw [hPieces numberedShelf rfl hWell _ _ p (by decide) (by decide +kernel) hPiece,
      hDigit] at hFormed
    cases hFormed

end EntityGraph
