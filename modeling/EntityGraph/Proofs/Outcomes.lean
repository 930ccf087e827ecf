import EntityGraph.Proofs.Compilation
import EntityGraph.Proofs.Schema.Claimed
import EntityGraph.Proofs.Schema.References

/-!
# What can end a compilation

The structural rules rule out most failures of a compilation.  An entity is refused for its name or
for a value in it that cannot be written, a schema for a relationship without a target or for a
repeated name, and nothing else fails.

* `Model.RefusedBy`: what an entity is refused by;
* `Session.addAll_error_iff`: the first entity that is refused ends the additions;
* `Schema.build_outcome`: the outcomes of a schema;
* `compile_outcome`: the outcomes of a compilation;
* `parsed_outcome`: the outcomes for definitions that were parsed.
-/

namespace EntityGraph

open Outcome Schema

/-- What an entity is refused by. -/
inductive Model.RefusedBy [Limits] (m : Model) : Failure → Prop where
  /-- A value in one of its validators cannot be written. -/
  | text {flaw : Value.Flaw} (h : m.flaw? = some flaw) : RefusedBy m flaw.failure
  /-- Its name belongs to another type. -/
  | name (hText : m.HasText) (h : isReservedType m.name = true) : RefusedBy m (.reservedType m.name)

/-- An entity that is not refused. -/
structure Model.Admitted [Limits] (m : Model) : Prop where
  text : m.HasText
  name : isReservedType m.name = false

namespace Model

variable {m : Model}

theorem not_hasText [Limits] {flaw : Value.Flaw} (h : m.flaw? = some flaw) : ¬ m.HasText := by
  rw [hasText_iff, h]
  simp

theorem RefusedBy.not_admitted [Limits] {failure : Failure} (h : m.RefusedBy failure) :
    ¬ m.Admitted := by
  rintro ⟨hText, hName⟩
  cases h with
  | text hFlaw => exact not_hasText hFlaw hText
  | name _ hReserved =>
    rw [hName] at hReserved
    cases hReserved

theorem RefusedBy.eq [Limits] {f g : Failure} (hf : m.RefusedBy f) (hg : m.RefusedBy g) :
    f = g := by
  cases hf with
  | text hFlaw =>
    cases hg with
    | text hFlaw' => rw [Option.some.inj (hFlaw.symm.trans hFlaw')]
    | name hText => exact absurd hText (not_hasText hFlaw)
  | name hText =>
    cases hg with
    | text hFlaw => exact absurd hText (not_hasText hFlaw)
    | name => rfl

theorem RefusedBy.flaw?_eq [Limits] {flaw : Value.Flaw} (h : m.RefusedBy flaw.failure) :
    m.flaw? = some flaw := by
  generalize hFailure : flaw.failure = failure at h
  cases h with
  | text hFlaw => rwa [Value.Flaw.failure_inj hFailure]
  | name => cases flaw <;> cases hFailure

/-- The name of a well-formed entity can only be refused because it is reserved. -/
theorem WellFormed.checkTypeName_eq (h : m.WellFormed) :
    checkTypeName m.name =
      if isReservedType m.name then .error (.reservedType m.name) else .ok () := by
  rw [checkTypeName]
  split
  · rfl
  · exact checkName_of_isIdentifier h.name

/-- The types of the properties of a well-formed entity are scalars. -/
theorem WellFormed.checkProperties_ok (h : m.WellFormed) {r : Registry}
    (hScalars : r.scalars = defaultScalars) : checkProperties r m = .ok () := by
  refine bind_eq_ok.mpr ⟨PUnit.unit, forIn_eq_ok.mpr fun p hp => ?_, rfl⟩
  have hHas : r.has p.type = true :=
    Registry.has_iff.mpr (Or.inl (hScalars ▸ (h.properties p hp).2))
  obtain ⟨key, hKey⟩ := Option.isSome_iff_exists.mp hHas
  exact ⟨_, map_eq_ok.mpr ⟨key, by rw [Registry.get, hKey], rfl⟩⟩

end Model

/-! ## Additions -/

namespace Session

variable [Limits] {s : Session}

/-- A new session, or one that additions have left. -/
structure Open (s : Session) : Prop where
  output : s.output = none
  scalars : s.registry.scalars = defaultScalars

/-- A well-formed entity is taken in, or it is refused by one of the two. -/
theorem add_cases (hOpen : s.Open) {m : Model} (h : m.WellFormed) :
    (m.Admitted ∧ ∃ next, (s.add m).value = .ok next ∧ next.Open) ∨
      ∃ failure, m.RefusedBy failure ∧ (s.add m).value = .error failure := by
  have hFinalized : s.isFinalized = false := by simp [isFinalized, hOpen.output]
  unfold add
  simp only [hFinalized, Bool.false_eq_true, if_false]
  cases hRender : Handlers.render s.config m with
  | error failure =>
    obtain ⟨flaw, hFlaw, rfl⟩ := (render_settled h).error_iff.mp hRender
    exact Or.inr ⟨_, .text hFlaw, rfl⟩
  | ok piece =>
    have hText := (render_ok_iff h).mp ⟨piece, hRender⟩
    have hCheck : checkModel s.registry m = checkTypeName m.name := by
      rw [checkModel, h.checkProperties_ok hOpen.scalars]
      rfl
    simp only [Logged.value_bind, Schema.addModel, hCheck, h.checkTypeName_eq]
    cases hName : isReservedType m.name with
    | true => exact Or.inr ⟨_, .name hText hName, rfl⟩
    | false => exact Or.inl ⟨⟨hText, hName⟩, _, rfl, hOpen.output, hOpen.scalars⟩

/-- Additions end with the first entity that is refused. -/
theorem addAll_error_iff (hOpen : s.Open) {ms : List Model} (h : ∀ m ∈ ms, m.WellFormed)
    {failure : Failure} :
    (s.addAll ms).value.2 = .error failure ↔ ∃ earlier m later, ms = earlier ++ m :: later ∧
      (∀ m' ∈ earlier, m'.Admitted) ∧ m.RefusedBy failure := by
  induction ms generalizing s with
  | nil =>
    refine iff_of_false (fun hError => ?_) ?_
    · cases hError
    · rintro ⟨earlier, m, later, hAll, -⟩
      simp at hAll
  | cons m ms ih =>
    have hRest := fun m' hm' => h m' (List.mem_cons_of_mem _ hm')
    rw [addAll, Logged.value_bind]
    rcases add_cases hOpen (h m List.mem_cons_self) with ⟨hAdmitted, next, hAdd, hNext⟩ |
        ⟨failure', hRefused, hAdd⟩
    · rw [hAdd]
      refine (ih hNext hRest).trans ⟨?_, ?_⟩
      · rintro ⟨earlier, m', later, rfl, hEarlier, hRefused⟩
        exact ⟨m :: earlier, m', later, rfl, List.forall_mem_cons.mpr ⟨hAdmitted, hEarlier⟩,
          hRefused⟩
      · rintro ⟨earlier, m', later, hAll, hEarlier, hRefused⟩
        cases earlier with
        | nil =>
          obtain ⟨rfl, rfl⟩ := List.cons.inj hAll
          exact absurd hAdmitted hRefused.not_admitted
        | cons first earlier =>
          obtain ⟨rfl, rfl⟩ := List.cons.inj hAll
          exact ⟨earlier, m', later, rfl, fun m'' hm'' => hEarlier m'' (.tail _ hm''), hRefused⟩
    · rw [hAdd]
      constructor
      · intro hError
        obtain rfl := Except.error.inj hError
        exact ⟨[], m, ms, rfl, by simp, hRefused⟩
      · rintro ⟨earlier, m', later, hAll, hEarlier, hRefused'⟩
        cases earlier with
        | nil =>
          obtain ⟨rfl, rfl⟩ := List.cons.inj hAll
          exact congrArg Except.error (hRefused.eq hRefused')
        | cons first earlier =>
          obtain ⟨rfl, rfl⟩ := List.cons.inj hAll
          exact absurd (hEarlier m List.mem_cons_self) hRefused.not_admitted

end Session

/-! ## Schemas -/

/-- The type of a relationship that leads nowhere: neither a scalar nor an entity. -/
structure Astray (models : List Model) (type : String) : Prop where
  relationship : ∃ m ∈ models, ∃ t ∈ m.relationships, t.type = type
  notScalar : type ∉ defaultScalars
  notEntity : ∀ m ∈ models, m.name ≠ type

namespace Schema

section

variable {models : List Model} {r : Registry}

/-- References fail only at a relationship that leads nowhere. -/
theorem checkReferences_error (hWell : ∀ m ∈ models, m.WellFormed)
    (hAdded : register {} models = .ok r) {failure : Failure}
    (h : checkReferences r = .error failure) :
    ∃ type, Astray models type ∧ failure = .unknownType type := by
  obtain ⟨hCoherent, hScalars, rfl, -⟩ := register_spec hAdded
  have hFree : ∀ {type}, r.has type = false →
      type ∉ defaultScalars ∧ ∀ m ∈ r.models, m.name ≠ type := by
    intro type hHas
    rw [← Bool.not_eq_true, Registry.has_iff, hScalars, hCoherent.mem_objects_iff] at hHas
    exact ⟨fun hMem => hHas (Or.inl hMem), fun m hm hName => hHas (Or.inr ⟨m, hm, hName⟩)⟩
  obtain ⟨d, hMissing, rfl⟩ := checkReferences_eq_error.mp h
  have hHas : r.has d.type = false := by simpa using List.find?_some hMissing
  obtain ⟨m, hm, hd⟩ := List.mem_flatMap.mp (List.mem_of_find?_eq_some hMissing)
  obtain ⟨hScalar, hEntity⟩ := hFree hHas
  rcases mem_declarations.mp hd with rfl | ⟨p, hp, rfl⟩ | ⟨t, ht, rfl⟩
  · exact absurd (by decide) hScalar
  · exact absurd ((hWell m hm).properties p hp).2 hScalar
  · exact ⟨t.type, ⟨⟨m, hm, t, ht, rfl⟩, hScalar, hEntity⟩, rfl⟩

/-- A schema of well-formed entities exists, or a relationship leads nowhere, or two types share a
name. -/
theorem build_outcome (hWell : ∀ m ∈ models, m.WellFormed) (hAdded : register {} models = .ok r) :
    (∃ schema, (build r).value.2 = .ok schema) ∨
      (∃ type, Astray models type ∧ (build r).value.2 = .error (.unknownType type)) ∨
      ∃ name, (build r).value.2 = .error (.duplicateType name) := by
  cases hReferences : checkReferences r with
  | error failure =>
    obtain ⟨type, hAstray, rfl⟩ := checkReferences_error hWell hAdded hReferences
    refine Or.inr (Or.inl ⟨type, hAstray, ?_⟩)
    simp [build_value, sources, hReferences]
  | ok _ =>
    obtain ⟨hCoherent, hScalars, hModels, -⟩ := register_spec hAdded
    have hTargets : ∀ m ∈ models, ∀ t ∈ m.relationships,
        t.type ∈ defaultScalars ∨ ∃ m' ∈ models, m'.name = t.type := by
      intro m hm t ht
      obtain ⟨fields, hFields⟩ := checkReferences_eq_ok.mp hReferences m (hModels ▸ hm)
      have hDeclared : Declaration.ofRelationship t ∈ declarations m :=
        .tail _ (List.mem_append_right _ (List.mem_map_of_mem ht))
      have hHas := (modelFields_eq_ok.mp hFields).1 _ hDeclared
      rwa [Registry.has_iff, hScalars, hCoherent.mem_objects_iff, hModels] at hHas
    obtain ⟨s, rfl, hFresh⟩ := fresh_of_register hWell hAdded hTargets
    rcases hFresh.build_cases with ⟨-, schema, hBuild⟩ | ⟨-, name, hBuild⟩
    · exact Or.inl ⟨schema, hBuild⟩
    · exact Or.inr (Or.inr ⟨name, hBuild⟩)

end

end Schema

/-! ## Compilations -/

theorem document_ok {models : List Model} (hWell : ∀ m ∈ models, m.WellFormed) :
    ∃ d, Document.ofModels models = .ok d := by
  have hBlocks : ∀ m ∈ models.filter Model.hasOperations, ∃ bs, Document.blocksOf m = .ok bs := by
    intro m hm
    refine mapM_ok fun o ho => ?_
    obtain ⟨kind, hKind⟩ := ((hWell m (List.mem_of_mem_filter hm)).operations o ho).kind
    exact ⟨_, bind_eq_ok.mpr ⟨kind, hKind, rfl⟩⟩
  obtain ⟨bs, hAll⟩ := mapM_ok hBlocks
  exact ⟨_, bind_eq_ok.mpr ⟨bs, hAll, rfl⟩⟩

section

variable [Limits] {models : List Model} {config : Configuration}

/-- The first entity that is refused ends a compilation. -/
theorem compile_refused (hWell : ∀ m ∈ models, m.WellFormed) {failure : Failure}
    {earlier later : List Model} {m : Model} (hModels : models = earlier ++ m :: later)
    (hEarlier : ∀ m' ∈ earlier, m'.Admitted) (hRefused : m.RefusedBy failure) :
    (compile config none models).value = .error failure := by
  have hOpen : (Session.start config none).Open := ⟨rfl, rfl⟩
  have hAll := (Session.addAll_error_iff hOpen hWell).mpr
    ⟨earlier, m, later, hModels, hEarlier, hRefused⟩
  unfold compile
  rw [Logged.value_bind]
  rcases hSession : ((Session.start config none).addAll models).value with ⟨t, added⟩
  rw [hSession] at hAll
  obtain rfl : added = .error failure := hAll
  rfl

omit [Limits] in
/-- An entity that was registered is not refused for its name. -/
theorem not_reserved_of_register (hWell : ∀ m ∈ models, m.WellFormed) {r : Registry}
    (hRegister : register {} models = .ok r) {m : Model} (hm : m ∈ models) :
    isReservedType m.name = false := by
  obtain ⟨hCoherent, -, rfl, -⟩ := register_spec hRegister
  have hName := hCoherent.named m hm
  rw [(hWell m hm).checkTypeName_eq] at hName
  split at hName
  · cases hName
  · rename_i hFree
    exact Bool.eq_false_iff.mpr hFree

/-- A plain compilation of well-formed entities ends with what the first entity refused is refused
by.  If none is, it ends with an output or with what their schema fails with. -/
theorem compile_outcome (hWell : ∀ m ∈ models, m.WellFormed)
    (hPlain : config.formatSource = false) :
    (∃ earlier m later failure, models = earlier ++ m :: later ∧ (∀ m' ∈ earlier, m'.Admitted) ∧
      m.RefusedBy failure ∧ (compile config none models).value = .error failure) ∨
    (∀ m ∈ models, m.Admitted) ∧
      ((∃ output, (compile config none models).value = .ok output) ∨
        (∃ type, Astray models type ∧
          (compile config none models).value = .error (.unknownType type)) ∨
        ∃ name, (compile config none models).value = .error (.duplicateType name)) := by
  have hOpen : (Session.start config none).Open := ⟨rfl, rfl⟩
  rcases hAll : ((Session.start config none).addAll models).value with ⟨t, failure | u⟩
  · obtain ⟨earlier, m, later, hModels, hEarlier, hRefused⟩ :=
      (Session.addAll_error_iff hOpen hWell).mp (congrArg Prod.snd hAll)
    exact Or.inl ⟨earlier, m, later, failure, hModels, hEarlier, hRefused,
      compile_refused hWell hModels hEarlier hRefused⟩
  · obtain ⟨pieces, registry, hPieces, hRegister, hLast⟩ :=
      (Session.addAll_eq_ok hOpen.output).mp hAll
    have hError : ∀ failure, (build registry).value.2 = .error failure →
        (compile config none models).value = .error failure := by
      intro failure hBuild
      have hTOpen : t.output = none := by rw [hLast, hOpen.output]
      have hRegistry : t.registry = registry := by rw [hLast]
      unfold compile
      simp only [Logged.value_bind, hAll]
      rw [Session.finalize_value hTOpen, hRegistry, hBuild]
      rfl
    refine Or.inr ⟨fun m hm => ⟨?_, not_reserved_of_register hWell hRegister hm⟩, ?_⟩
    · obtain ⟨piece, -, hPiece⟩ := mem_mapM hPieces hm
      exact (render_ok_iff (hWell m hm)).mp ⟨piece, hPiece⟩
    · rcases build_outcome hWell hRegister with ⟨schema, hBuild⟩ | ⟨type, hAstray, hBuild⟩ |
          ⟨name, hBuild⟩
      · obtain ⟨document, hDocument⟩ := document_ok hWell
        have hSource : (Handlers.Module.mk pieces "").source config =
            .ok (Handlers.Module.mk pieces "").plainSource := by
          simp [Handlers.Module.source, hPlain]
        exact Or.inl ⟨⟨schema, document, _⟩, compile_eq_ok.mpr
          ⟨registry, pieces, hRegister, hPieces, hBuild, hDocument, hSource⟩⟩
      · exact Or.inr (Or.inl ⟨type, hAstray, hError _ hBuild⟩)
      · exact Or.inr (Or.inr ⟨name, hError _ hBuild⟩)

end

/-- Of definitions that were parsed a plain compilation gives an output, or it fails for a
relationship that leads nowhere, for the name of an entity that is reserved, for two types of one
name, or for a value in a validator that cannot be written, because a number in it is too long or it
has more levels than there is room for; this last failure is what it ends with exactly if the first
entity that is refused has such a value.  There is no other failure. -/
theorem parsed_outcome [Limits] {raw : Value} {d : Definitions} {settings config : Configuration}
    (hParse : (Input.parse raw).value = .ok (d, settings)) (hPlain : config.formatSource = false) :
    ((∃ output, (compile config none d.models).value = .ok output) ∨
      (∃ m ∈ d.models, ∃ t ∈ m.relationships, t.type ∉ defaultScalars ∧
        (∀ m' ∈ d.models, m'.name ≠ t.type) ∧
        (compile config none d.models).value = .error (.unknownType t.type)) ∨
      (∃ m ∈ d.models, isReservedType m.name = true ∧
        (compile config none d.models).value = .error (.reservedType m.name)) ∨
      (∃ name, (compile config none d.models).value = .error (.duplicateType name)) ∨
      ∃ flaw : Value.Flaw, (compile config none d.models).value = .error flaw.failure) ∧
    ∀ flaw : Value.Flaw, ((compile config none d.models).value = .error flaw.failure ↔
      ∃ earlier m later, d.models = earlier ++ m :: later ∧
        (∀ m' ∈ earlier, m'.HasText ∧ isReservedType m'.name = false) ∧ m.flaw? = some flaw) := by
  have hWell : ∀ m ∈ d.models, m.WellFormed := by
    intro m hm
    obtain ⟨v, hRead⟩ := (Definitions.read_of_parse hParse).2 m hm
    exact Model.wellFormed_of_read hRead
  have hOutcome := compile_outcome hWell hPlain
  refine ⟨?_, fun flaw => ⟨fun hFlaw => ?_, ?_⟩⟩
  · rcases hOutcome with ⟨earlier, m, later, failure, hModels, -, hRefused, hFails⟩ |
        ⟨-, hDone | ⟨type, hAstray, hFails⟩ | hRepeated⟩
    · cases hRefused with
      | text => exact Or.inr (Or.inr (Or.inr (Or.inr ⟨_, hFails⟩)))
      | name _ hName => exact Or.inr (Or.inr (Or.inl ⟨m, by simp [hModels], hName, hFails⟩))
    · exact Or.inl hDone
    · obtain ⟨m, hm, t, ht, rfl⟩ := hAstray.relationship
      exact Or.inr (Or.inl ⟨m, hm, t, ht, hAstray.notScalar, hAstray.notEntity, hFails⟩)
    · exact Or.inr (Or.inr (Or.inr (Or.inl hRepeated)))
  · rw [hFlaw] at hOutcome
    rcases hOutcome with ⟨earlier, m, later, failure, hModels, hEarlier, hRefused, hFails⟩ |
        ⟨-, ⟨_, hDone⟩ | ⟨_, -, hFails⟩ | ⟨_, hFails⟩⟩
    · obtain rfl := Except.error.inj hFails
      exact ⟨earlier, m, later, hModels, fun m' hm' => ⟨(hEarlier m' hm').text,
        (hEarlier m' hm').name⟩, hRefused.flaw?_eq⟩
    · cases hDone
    · cases flaw <;> cases hFails
    · cases flaw <;> cases hFails
  · rintro ⟨earlier, m, later, hModels, hEarlier, hFound⟩
    exact compile_refused hWell hModels (fun m' hm' => ⟨(hEarlier m' hm').1, (hEarlier m' hm').2⟩)
      (.text hFound)

/-- An entity that is made with a number of pages that no text is long enough for. -/
def endlessBook : Model :=
  ⟨"Book", [⟨"title", "String", false, true, false, []⟩], [],
    [⟨"add", "Create", [⟨"pages", "Int", false, true,
      [⟨"Max", [(.text "max", .int (Int.pow 10 4300))]⟩]⟩], []⟩]⟩

/-- A value that reads as this entity. -/
def endlessBookValue : Value :=
  .list [Value.record [("name", .text "Book"),
    ("properties", .list [Value.record [("name", .text "title"), ("type", .text "String")]]),
    ("operations", .list [Value.record [("name", .text "add"), ("type", .text "Create"),
      ("arguments", .list [Value.record [("name", .text "pages"), ("type", .text "Int"),
        ("validators", .list [Value.record [("type", .text "Max"),
          ("properties", Value.record [("max", .int (Int.pow 10 4300))])]])]])]])]]

/-- Its compilation fails although it obeys the structural rules. -/
theorem endlessBook_fails :
    (Input.parse endlessBookValue).value = .ok (.ofModels [endlessBook], {}) ∧
      (compile { formatSource := false } none [endlessBook]).value = .error .numberTooLong := by
  have hParse : (Input.parse endlessBookValue).value = .ok (.ofModels [endlessBook], {}) := by rfl
  have hFlaw : endlessBook.flaw? = some .tooLong := by decide +kernel
  exact ⟨hParse, ((parsed_outcome hParse rfl).2 .tooLong).mpr
    ⟨[], endlessBook, [], rfl, by simp, hFlaw⟩⟩

end EntityGraph
