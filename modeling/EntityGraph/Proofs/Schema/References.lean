import EntityGraph.Proofs.Schema.WellFormed

/-!
# Relationships without a target

The compiler resolves the declarations of all registered entities in turn and stops at the first
whose type it does not know.  The audit looks at the relationships only, compares them with a set of
names that it makes beforehand, and reports every one whose target is not in the set.  They agree:
once an entity is registered, nothing but the targets of its relationships can still be unknown, and
the names in the set are the types that the registry has by then.

* `Registry.missing?`: the first declaration whose type a registry does not have;
* `modelFields_eq_error`, `checkReferences_eq_error`: the check of the references fails at it;
* `has_of_register`, `known_of_register`: which types there are once all entities are registered;
* `modelFields_of_register`: the fields of an entity whose relationships have targets;
* `missing_of_register`: of a registered entity only relationships can lack their types;
* `targets_of_register`: the targets that the audit reports are the missing types, in their order;
* `references_agree`: the check fails exactly if the audit reports a target, and with the first one.
-/

namespace EntityGraph.Schema

open Outcome

variable {r : Registry} {failure : Failure}

/-! ## The first failure of the check -/

/-- The first of several declarations whose type a registry does not have. -/
def Registry.missing? (r : Registry) (ds : List Declaration) : Option Declaration :=
  ds.find? fun d => !r.has d.type

theorem Registry.missing?_eq_none {ds : List Declaration} :
    r.missing? ds = none ↔ ∀ d ∈ ds, r.has d.type = true := by
  simp [missing?]

theorem Declaration.resolve_eq_error {d : Declaration} :
    d.resolve r = .error failure ↔ r.has d.type = false ∧ failure = .unknownType d.type := by
  unfold resolve Registry.resolve Registry.get Registry.has
  cases r.find? d.type with
  | none => simp [Except.map, eq_comm]
  | some key => simp [Except.map]

/-- The first of two lists of declarations is looked at before the second. -/
theorem Registry.missing?_append {ds es : List Declaration} :
    r.missing? (ds ++ es) = (r.missing? ds).or (r.missing? es) :=
  List.find?_append

/-- Declarations are resolved up to the first whose type is missing. -/
theorem resolveEach_eq_error {ds : List Declaration} :
    ds.mapM (Declaration.resolve r) = .error failure ↔
      ∃ d, r.missing? ds = some d ∧ failure = .unknownType d.type := by
  induction ds with
  | nil => simp [Registry.missing?, pure, Except.pure]
  | cons d ds ih =>
    rw [mapM_cons_eq_error, ih, Declaration.resolve_eq_error]
    cases hHas : r.has d.type with
    | false =>
      have hFirst : r.missing? (d :: ds) = some d := List.find?_cons_of_pos (by simp [hHas])
      simp [hFirst, Declaration.resolve_eq_ok, hHas]
    | true =>
      have hFirst : r.missing? (d :: ds) = r.missing? ds := List.find?_cons_of_neg (by simp [hHas])
      simp [hFirst, Declaration.resolve_eq_ok, hHas]

theorem modelFields_eq_error {m : Model} :
    modelFields r m = .error failure ↔
      ∃ d, r.missing? (declarations m) = some d ∧ failure = .unknownType d.type := by
  rw [← resolveEach_eq_error]
  exact bind_pure_eq_error

/-- The references of entities are checked up to the first declaration whose type is missing. -/
theorem checkReferences_eq_error :
    checkReferences r = .error failure ↔
      ∃ d, r.missing? (r.models.flatMap declarations) = some d ∧ failure = .unknownType d.type := by
  unfold checkReferences
  rw [bind_pure_eq_error, forIn_eq_error]
  induction r.models with
  | nil => simp [Registry.missing?, pure, Except.pure]
  | cons m ms ih =>
    rw [mapM_cons_eq_error, ih, modelFields_eq_error, List.flatMap_cons, Registry.missing?_append]
    cases hFirst : r.missing? (declarations m) with
    | none =>
      have hFields : ∃ fields, modelFields r m = .ok fields :=
        ⟨_, modelFields_eq_ok.mpr ⟨Registry.missing?_eq_none.mp hFirst, rfl⟩⟩
      simp [hFields]
    | some d =>
      have hFields : ¬ ∃ fields, modelFields r m = .ok fields := by
        rintro ⟨fields, hFields⟩
        have hAll := Registry.missing?_eq_none.mpr (modelFields_eq_ok.mp hFields).1
        cases hAll.symm.trans hFirst
      simp [hFields]

/-! ## Registered entities -/

variable {scalars : List String} {models : List Model}

/-- The types of a registry are its scalars and the entities registered. -/
theorem has_of_register (hRegister : register { scalars } models = .ok r) {name : String} :
    r.has name = true ↔ name ∈ scalars ++ models.map (·.name) := by
  obtain ⟨hCoherent, hScalars, hModels, -⟩ := register_spec hRegister
  rw [Registry.has_iff, hScalars, hCoherent.mem_objects_iff, hModels, List.mem_append,
    List.mem_map]

/-- A property that passed the registration of its entity keeps its type: types are only added. -/
theorem known_of_register (hRegister : register { scalars } models = .ok r) :
    ∀ m ∈ models, ∀ p ∈ m.properties, r.has p.type = true := by
  induction models using List.reverseRecOn generalizing r with
  | nil => simp
  | append_singleton ms m ih =>
    obtain ⟨before, hBefore, hCheck, -⟩ := register_concat_eq_ok.mp hRegister
    have hGrows : ∀ {name}, before.has name = true → r.has name = true := by
      intro name hHas
      rw [has_of_register hBefore, List.mem_append] at hHas
      rw [has_of_register hRegister, List.map_append, List.mem_append, List.mem_append]
      exact hHas.imp_right Or.inl
    intro m' hm' p hp
    apply hGrows
    rcases List.mem_append.mp hm' with hm' | hm'
    · exact ih hBefore m' hm' p hp
    · obtain rfl := List.mem_singleton.mp hm'
      exact (checkModel_eq_ok.mp hCheck).1 p hp

/-- A registered entity has its fields once the targets of its relationships exist. -/
theorem modelFields_of_register (hId : "ID" ∈ scalars)
    (hRegister : register { scalars } models = .ok r) {m : Model} (hm : m ∈ models)
    (hTargets : ∀ t ∈ m.relationships, r.has t.type = true) :
    modelFields r m = .ok ((surviving (declarations m)).mapValues (Declaration.typeIn r)) :=
  modelFields_of_has ((has_of_register hRegister).mpr (List.mem_append_left _ hId))
    (known_of_register hRegister m hm) hTargets

end EntityGraph.Schema

namespace EntityGraph.Audit

/-- What a finding names as the target of a relationship. -/
def Finding.target? (f : Finding) : Option Value := f.context.lookup "target"

/-- Whatever is said about the targets of relationships is an error. -/
theorem hasErrors_relationships {models : List Model} {scalars : List String} :
    (findings (relationships models scalars)).hasErrors = true ↔
      findings (relationships models scalars) ≠ [] := by
  unfold Findings.hasErrors findings
  rw [List.any_map, List.any_eq_true, ne_eq, List.map_eq_nil_iff]
  constructor
  · rintro ⟨c, hc, -⟩ hNone
    rw [hNone] at hc
    cases hc
  · intro hSome
    obtain ⟨c, hc⟩ := List.exists_mem_of_ne_nil _ hSome
    refine ⟨c, hc, ?_⟩
    obtain ⟨m, -, hc⟩ := List.mem_flatMap.mp hc
    obtain ⟨t, -, hc⟩ := List.mem_filterMap.mp hc
    split at hc
    · cases hc
    · obtain rfl := Option.some.inj hc
      rfl

end EntityGraph.Audit

namespace EntityGraph.Schema

section

variable {r : Registry} {scalars : List String} {models : List Model}
variable (hId : "ID" ∈ scalars) (hRegister : register { scalars } models = .ok r)
include hId hRegister

/-- The declarations of a registered entity whose types are missing are relationships. -/
theorem missing_of_register {m : Model} (hm : m ∈ models) :
    (declarations m).filter (fun d => !r.has d.type) =
      (m.relationships.filter fun t => !r.has t.type).map .ofRelationship := by
  have hFirst : r.has "ID" = true := (has_of_register hRegister).mpr (List.mem_append_left _ hId)
  have hProperties : (m.properties.map Declaration.ofProperty).filter
      (fun d => !r.has d.type) = [] := by
    rw [List.filter_eq_nil_iff, List.forall_mem_map]
    intro p hp
    simpa [Declaration.ofProperty] using known_of_register hRegister m hm p hp
  rw [declarations, List.filter_cons_of_neg (by simp [hFirst]), List.filter_append, hProperties,
    List.nil_append, List.filter_map]
  rfl

/-- The targets that an audit reports are the types that registered entities declare and that the
registry does not have, in the order of the declarations. -/
theorem targets_of_register :
    (Audit.findings (Audit.relationships models scalars)).map Audit.Finding.target? =
      ((models.flatMap declarations).filter fun d => !r.has d.type).map
        fun d => some (.text d.type) := by
  have hKnown : ∀ name, (scalars ++ models.map (·.name)).contains name = r.has name := by
    intro name
    rw [Bool.eq_iff_iff, List.contains_iff_mem, has_of_register hRegister]
  unfold Audit.findings Audit.relationships
  rw [List.map_map, List.map_flatMap, List.filter_flatMap, List.map_flatMap]
  refine List.flatMap_congr fun m hm => ?_
  simp only [hKnown]
  rw [missing_of_register hId hRegister hm, List.map_map, List.map_filterMap,
    ← List.filterMap_eq_map, List.filterMap_filter]
  refine List.filterMap_congr fun t _ => ?_
  cases r.has t.type with
  | false => rfl
  | true => rfl

/-- Checking the references of registered entities fails exactly if the audit of relationships
reports an error, and the type that is unknown then is the target in the first finding. -/
theorem references_agree :
    ((∃ name, checkReferences r = .error (.unknownType name)) ↔
      (Audit.findings (Audit.relationships models scalars)).hasErrors = true) ∧
    ∀ failure, checkReferences r = .error failure → ∃ first rest name,
      Audit.findings (Audit.relationships models scalars) = first :: rest ∧
        first.target? = some (.text name) ∧ failure = .unknownType name := by
  have hTargets := targets_of_register hId hRegister
  have hModels : r.models = models := (register_spec hRegister).2.2.1
  have hFirst : (r.missing? (r.models.flatMap declarations)).map (fun d => some (.text d.type)) =
      ((Audit.findings (Audit.relationships models scalars)).map Audit.Finding.target?).head? := by
    rw [hTargets, List.head?_map, List.head?_filter, hModels]
    rfl
  refine ⟨?_, ?_⟩
  · rw [Audit.hasErrors_relationships]
    constructor
    · rintro ⟨name, hFails⟩ hNone
      obtain ⟨d, hMissing, -⟩ := checkReferences_eq_error.mp hFails
      rw [hMissing, hNone] at hFirst
      cases hFirst
    · intro hSome
      obtain ⟨f, fs, hFindings⟩ := List.exists_cons_of_ne_nil hSome
      rw [hFindings, List.map_cons, List.head?_cons] at hFirst
      obtain ⟨d, hMissing, -⟩ := Option.map_eq_some_iff.mp hFirst
      exact ⟨d.type, checkReferences_eq_error.mpr ⟨d, hMissing, rfl⟩⟩
  · intro failure hFails
    obtain ⟨d, hMissing, rfl⟩ := checkReferences_eq_error.mp hFails
    rw [hMissing, Option.map_some, eq_comm, List.head?_map, Option.map_eq_some_iff] at hFirst
    obtain ⟨f, hHead, hTarget⟩ := hFirst
    obtain ⟨rest, hFindings⟩ := List.head?_eq_some_iff.mp hHead
    exact ⟨f, rest, d.type, hFindings, hTarget, rfl⟩

end

/-- A book, whose price is a scalar, whose author is declared after it, and whose shelf is not
declared. -/
def writtenBook : Model :=
  ⟨"Book", [⟨"title", "String", false, true, false, []⟩],
    [⟨"price", "Money", false, true⟩, ⟨"author", "Author", false, true⟩,
      ⟨"shelf", "Shelf", false, false⟩], []⟩

/-- The author of books, who refers back to them, to other authors, and to an agent that is not
declared. -/
def bookAuthor : Model :=
  ⟨"Author", [], [⟨"books", "Book", true, true⟩, ⟨"pupils", "Author", true, false⟩,
    ⟨"agent", "Agent", false, true⟩], []⟩

/-- The registry of both under three scalars. -/
def writtenRegistry : Registry :=
  { scalars := ["ID", "String", "Money"],
    slots := [{ model := writtenBook }, { model := bookAuthor }],
    objects := [("Book", 0), ("Author", 1)], models := [writtenBook, bookAuthor] }

/-- The shelf is the first of the two types that are missing. -/
theorem references_agree_written :
    (∃ name, checkReferences writtenRegistry = .error (.unknownType name)) ∧
      ∀ failure, checkReferences writtenRegistry = .error failure →
        failure = .unknownType "Shelf" := by
  obtain ⟨hFails, hFirst⟩ := @references_agree writtenRegistry ["ID", "String", "Money"]
    [writtenBook, bookAuthor] (by decide) (by rfl)
  refine ⟨hFails.mpr (by decide), fun failure hFailure => ?_⟩
  obtain ⟨first, rest, name, hFindings, hTarget, rfl⟩ := hFirst failure hFailure
  have hShelf : (Audit.findings (Audit.relationships [writtenBook, bookAuthor]
      ["ID", "String", "Money"])).head?.bind Audit.Finding.target? = some (.text "Shelf") := by rfl
  rw [hFindings, List.head?_cons, Option.bind_some, hTarget] at hShelf
  cases hShelf
  rfl

end EntityGraph.Schema
