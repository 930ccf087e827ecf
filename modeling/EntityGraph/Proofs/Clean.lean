import EntityGraph.Pipeline
import EntityGraph.Proofs.Audit
import EntityGraph.Proofs.Outcomes

/-!
# What clean definitions compile to

An audit that reports neither errors nor warnings leaves few ways for a compilation to fail.  Every
operation has a root field of its own, and the names of all types are different, unless an entity
has the name of an input or a result type.

* `Sound`: well-formed entities with a clean audit;
* `Prepared`: the sources of their schema;
* `Prepared.mem_fieldsOf`: every operation has its root field;
* `Prepared.claimedNames_nodup`: which names can still collide;
* `Sound.compile_ok_iff`, `Sound.compile_error`: which compilations succeed, and how others fail.
-/

namespace EntityGraph

open Outcome Schema

/-- Entities that obey the structural rules and on which an audit reports nothing. -/
structure Sound (models : List Model) : Prop where
  wellFormed : ∀ m ∈ models, m.WellFormed
  clean : Audit.Clean models defaultScalars

/-- The kind of an operation whose label is known. -/
def Operation.knownKind (o : Operation) : Kind := (o.kind?.toOption).getD .view

theorem Operation.WellFormed.kind?_eq {o : Operation} (h : o.WellFormed) :
    o.kind? = .ok o.knownKind := by
  obtain ⟨kind, hKind⟩ := h.kind
  rw [knownKind, hKind]
  rfl

/-- What the operations of entities write, in order, if their kinds are known. -/
theorem Audit.writes_ok {models : List Model}
    (h : ∀ m ∈ models, ∀ o ∈ m.operations, o.kind? = .ok o.knownKind) :
    ∃ writes, models.mapM Audit.writesOf = .ok writes ∧
      writes.flatten = (RootFields.operations models).map fun mo =>
        ((mo.2.knownKind.root, Naming.rootField mo.2.name mo.1.name), mo.1.name) := by
  have hModel : ∀ m ∈ models, Audit.writesOf m = .ok (m.operations.map fun o =>
      ((o.knownKind.root, Naming.rootField o.name m.name), m.name)) := by
    intro m hm
    refine mapM_eq_map fun o ho => ?_
    rw [h m hm o ho]
    rfl
  refine ⟨_, mapM_eq_map hModel, ?_⟩
  simp [RootFields.operations, List.flatMap_def, Function.comp_def]

namespace Sound

variable {models : List Model}

theorem of_parse {raw : Value} {d : Definitions} {settings : Configuration} {fs : Audit.Findings}
    (hParse : (Input.parse raw).value = .ok (d, settings))
    (hAudit : (Audit.full d.models defaultScalars).value = .ok fs)
    (hErrors : fs.hasErrors = false) (hWarnings : fs.hasWarnings = false) : Sound d.models := by
  refine ⟨fun m hm => ?_, Audit.clean_of_full hAudit hErrors hWarnings⟩
  obtain ⟨v, hRead⟩ := (Definitions.read_of_parse hParse).2 m hm
  exact Model.wellFormed_of_read hRead

theorem kind?_eq (h : Sound models) {m : Model} (hm : m ∈ models) {o : Operation}
    (ho : o ∈ m.operations) : o.kind? = .ok o.knownKind :=
  ((h.wellFormed m hm).operations o ho).kind?_eq

/-- Entities with the same name are the same. -/
theorem model_eq (h : Sound models) {m m' : Model} (hm : m ∈ models) (hm' : m' ∈ models)
    (hName : m.name = m'.name) : m = m' :=
  List.inj_on_of_nodup_map h.clean.names hm hm' hName

/-- Operations of one kind on one entity are the same. -/
theorem operation_eq (h : Sound models) {m : Model} (hm : m ∈ models) {o o' : Operation}
    (ho : o ∈ m.operations) (ho' : o' ∈ m.operations) (hKind : o.knownKind = o'.knownKind) :
    o = o' := by
  obtain ⟨kinds, hKinds, hNodup⟩ := h.clean.kinds m hm
  have hMap := mapM_eq_map fun o ho => h.kind?_eq hm ho
  obtain rfl := Except.ok.inj (hMap.symm.trans hKinds)
  exact List.inj_on_of_nodup_map hNodup ho ho' hKind

/-- Every operation writes a root field of its own. -/
theorem writes_nodup (h : Sound models) : ((RootFields.operations models).map fun mo =>
    (mo.2.knownKind.root, Naming.rootField mo.2.name mo.1.name)).Nodup := by
  obtain ⟨writes, hWrites, hNodup⟩ := h.clean.writes
  obtain ⟨writes', hWrites', hAll⟩ := Audit.writes_ok fun m hm o ho => h.kind?_eq hm ho
  obtain rfl := Except.ok.inj (hWrites.symm.trans hWrites')
  rwa [hAll, List.map_map] at hNodup

/-! ## Registration -/

theorem checkTypeName_ok (h : Sound models) {m : Model} (hm : m ∈ models) :
    checkTypeName m.name = .ok () := by
  have hScalar : m.name ∉ builtinScalars := by
    have hDefault : ∀ n ∈ builtinScalars, n ∈ defaultScalars := by decide +kernel
    exact fun hMem => (h.clean.free m hm).1 (hDefault _ hMem)
  have hIntrospection : m.name ∉ introspectionTypes := by
    intro hMem
    have hPascal : ∀ n ∈ introspectionTypes, Naming.isPascalCase n = false := by decide +kernel
    have hNot := hPascal _ hMem
    rw [h.clean.pascal m hm] at hNot
    cases hNot
  have hFree : isReservedType m.name = false := by
    rw [isReservedType, Bool.or_eq_false_iff]
    exact ⟨by simpa using hScalar, by simpa using hIntrospection⟩
  rw [checkTypeName, hFree]
  exact checkName_of_isIdentifier (h.wellFormed m hm).name

theorem addModel_ok (h : Sound models) {m : Model} (hm : m ∈ models) {r : Registry}
    (hScalars : r.scalars = defaultScalars) :
    (addModel r m).value = .ok ((r.addModel m).insertObject m) := by
  refine addModel_eq_ok.mpr ⟨checkModel_eq_ok.mpr ⟨fun p hp => ?_, h.checkTypeName_ok hm⟩, rfl⟩
  have hType := ((h.wellFormed m hm).properties p hp).2
  exact Registry.has_iff.mpr (Or.inl (hScalars ▸ hType))

/-- A registry with the default scalars takes entities one after another. -/
theorem register_ok (h : Sound models) {ms : List Model} (hms : ms ⊆ models) {r : Registry}
    (hScalars : r.scalars = defaultScalars) : ∃ r', register r ms = .ok r' := by
  induction ms generalizing r with
  | nil => exact ⟨r, rfl⟩
  | cons m ms ih =>
    have hAdd := h.addModel_ok (hms List.mem_cons_self) hScalars
    obtain ⟨r', hRest⟩ := ih (fun _ hMem => hms (List.mem_cons_of_mem _ hMem))
      (r := (r.addModel m).insertObject m) hScalars
    exact ⟨r', bind_eq_ok.mpr ⟨_, hAdd, hRest⟩⟩

end Sound

/-! ## Sources -/

/-- The sources of the schema of sound entities. -/
structure Prepared (models : List Model) (s : Sources) : Prop where
  sound : Sound models
  fresh : s.Fresh
  models_eq : s.registry.models = models

/-- Sound entities have the sources of a schema. -/
theorem Sound.prepared {models : List Model} (h : Sound models) :
    ∃ s : Sources, register {} models = .ok s.registry ∧ Prepared models s := by
  obtain ⟨r, hRegister⟩ := h.register_ok (r := {}) (fun _ hm => hm) rfl
  obtain ⟨s, rfl, hFresh⟩ := fresh_of_register h.wellFormed hRegister h.clean.targets
  exact ⟨s, hRegister, h, hFresh, (register_spec hRegister).2.2.1⟩

/-- No entity has the name of an input or a result type. -/
def Separate (models : List Model) : Prop :=
  ∀ m ∈ models, ∀ o ∈ m.operations, ∀ kind, o.kind? = .ok kind → ∀ m' ∈ models,
    m'.name ≠ Naming.inputType m.name kind ∧ m'.name ≠ Naming.resultType m.name kind

namespace Prepared

variable {models : List Model} {s : Sources}

theorem mem_models (h : Prepared models s) {m : Model} : m ∈ s.registry.models ↔ m ∈ models := by
  rw [h.models_eq]

/-! ## Root fields -/

/-- The fields of a root are the types of its operations in order. -/
theorem fieldsOf_eq (h : Prepared models s) (root : Root) : ∃ ts,
    (RootFields.operationsOf s.registry root).mapM
        (fun mo => OperationTypes.make s.registry mo.1 mo.2) = .ok ts ∧
      s.fieldsOf root = RootFields.writes ts := by
  obtain ⟨-, ts, hTypes, hFields⟩ := RootFields.ofRoot_eq_ok.mp (h.fresh.grounded.fields root)
  refine ⟨ts, hTypes, hFields.trans (Table.putAll_eq_append ?_)⟩
  have hNames : ts.map (·.field) = (RootFields.operationsOf s.registry root).map
      fun mo => Naming.rootField mo.2.name mo.1.name := by
    refine mapM_map_eq hTypes fun mo t hMake => ?_
    obtain ⟨kind, slot, args, -, -, -, rfl⟩ := OperationTypes.make_eq_ok.mp hMake
    rfl
  have hRoot : ∀ mo ∈ RootFields.operationsOf s.registry root, mo.2.knownKind.root = root := by
    intro mo hmo
    obtain ⟨hMember, hWanted⟩ := List.mem_filter.mp hmo
    obtain ⟨hm, ho⟩ := RootFields.mem_operations.mp hMember
    have hKind := h.sound.kind?_eq (h.mem_models.mp hm) ho
    simpa [RootFields.isWanted, hKind] using hWanted
  -- An overwritten root field would be written twice, which the audit has ruled out.
  have hPairs : ((RootFields.operationsOf s.registry root).map fun mo =>
      (mo.2.knownKind.root, Naming.rootField mo.2.name mo.1.name)).Nodup := by
    refine List.Nodup.sublist (List.Sublist.map _ List.filter_sublist) ?_
    rw [h.models_eq]
    exact h.sound.writes_nodup
  have hNodup : (ts.map (·.field)).Nodup := by
    rw [hNames]
    refine List.Nodup.of_map (fun name => (root, name)) ?_
    rw [List.map_map]
    convert hPairs using 1
    exact List.map_congr_left fun mo hmo => Prod.ext (hRoot mo hmo).symm rfl
  simpa [RootFields.writes, Function.comp_def] using hNodup

/-- Every operation has its root field. -/
theorem mem_fieldsOf (h : Prepared models s) {m : Model} (hm : m ∈ models) {o : Operation}
    (ho : o ∈ m.operations) : ∃ t, OperationTypes.make s.registry m o = .ok t ∧
      (t.field, t) ∈ s.fieldsOf o.knownKind.root := by
  obtain ⟨ts, hTypes, hFields⟩ := h.fieldsOf_eq o.knownKind.root
  have hKind := h.sound.kind?_eq hm ho
  have hOperation : (m, o) ∈ RootFields.operationsOf s.registry o.knownKind.root := by
    apply List.mem_filter.mpr
    refine ⟨RootFields.mem_operations.mpr ⟨h.mem_models.mpr hm, ho⟩, ?_⟩
    simp [RootFields.isWanted, hKind]
  obtain ⟨t, ht, hMake⟩ := mem_mapM hTypes hOperation
  exact ⟨t, hMake, hFields ▸ List.mem_map_of_mem ht⟩

/-- A root field runs an operation of its entity under its kind. -/
theorem operation_of_surviving (h : Prepared models s) {t : OperationTypes}
    (ht : t ∈ s.surviving) : ∃ m ∈ models, ∃ o ∈ m.operations,
      OperationTypes.make s.registry m o = .ok t ∧ t.model = m.name ∧ t.kind = o.knownKind := by
  obtain ⟨r, f, hf, rfl⟩ := Sources.mem_surviving.mp ht
  obtain ⟨m, hm, o, ho, hMake, -⟩ := h.fresh.grounded.operation_of_field hf
  have hm := h.mem_models.mp hm
  obtain ⟨kind, slot, args, hKind, -, -, hTypes⟩ := OperationTypes.make_eq_ok.mp hMake
  obtain rfl := Except.ok.inj ((h.sound.kind?_eq hm ho).symm.trans hKind)
  exact ⟨m, hm, o, ho, hMake, by rw [hTypes], by rw [hTypes]⟩

/-- The operations that the root fields run have different names and kinds. -/
theorem surviving_nodup (h : Prepared models s) :
    (s.surviving.map fun t => (t.model, t.kind)).Nodup := by
  refine List.Nodup.map_on ?_ (List.Nodup.of_map _ h.fresh.surviving_nodup)
  intro t ht t' ht' hSame
  obtain ⟨m, hm, o, ho, hMake, hModel, hKind⟩ := h.operation_of_surviving ht
  obtain ⟨m', hm', o', ho', hMake', hModel', hKind'⟩ := h.operation_of_surviving ht'
  rw [hModel, hKind, hModel', hKind'] at hSame
  obtain ⟨hNames, hKinds⟩ := Prod.mk.inj hSame
  obtain rfl := h.sound.model_eq hm hm' hNames
  obtain rfl := h.sound.operation_eq hm ho ho' hKinds
  exact Except.ok.inj (hMake.symm.trans hMake')

/-! ## Names -/

theorem operationNames_nodup (h : Prepared models s) : s.operationNames.Nodup := by
  refine List.nodup_flatMap.mpr ⟨fun t _ => ?_, ?_⟩
  · simpa using Naming.inputType_ne_resultType
  · have hTypes := List.pairwise_map.mp h.surviving_nodup
    refine hTypes.imp fun {t t'} hNe name hName hName' => hNe ?_
    simp only [List.mem_cons, List.not_mem_nil, or_false] at hName hName'
    rcases hName with rfl | rfl <;> rcases hName' with hSame | hSame
    · obtain ⟨hModel, hKind⟩ := Naming.inputType_inj hSame
      exact Prod.ext hModel hKind
    · exact absurd hSame Naming.inputType_ne_resultType
    · exact absurd hSame.symm Naming.inputType_ne_resultType
    · obtain ⟨hModel, hKind⟩ := Naming.resultType_inj hSame
      exact Prod.ext hModel hKind

/-- The names of the input and result types are those of all operations. -/
theorem mem_operationNames (h : Prepared models s) {name : String} :
    name ∈ s.operationNames ↔ ∃ m ∈ models, ∃ o ∈ m.operations, ∃ kind, o.kind? = .ok kind ∧
      (name = Naming.inputType m.name kind ∨ name = Naming.resultType m.name kind) := by
  simp only [Sources.operationNames, List.mem_flatMap, List.mem_cons, List.not_mem_nil, or_false]
  constructor
  · rintro ⟨t, ht, hName⟩
    obtain ⟨m, hm, o, ho, -, hModel, hKind⟩ := h.operation_of_surviving ht
    rw [hModel, hKind] at hName
    exact ⟨m, hm, o, ho, o.knownKind, h.sound.kind?_eq hm ho, hName⟩
  · rintro ⟨m, hm, o, ho, kind, hKind, hName⟩
    obtain ⟨t, hMake, hf⟩ := h.mem_fieldsOf hm ho
    obtain ⟨kind', slot, args, hKind', -, -, hTypes⟩ := OperationTypes.make_eq_ok.mp hMake
    obtain rfl := Except.ok.inj (hKind.symm.trans hKind')
    refine ⟨t, Sources.mem_surviving.mpr ⟨_, _, hf, rfl⟩, ?_⟩
    rw [hTypes]
    exact hName

theorem operationNames_not_taken (h : Prepared models s) {name : String}
    (hName : name ∈ s.operationNames) : name ∉ Naming.takenNames := by
  obtain ⟨m, -, o, -, kind, -, rfl | rfl⟩ := h.mem_operationNames.mp hName
  · exact Naming.inputType_not_taken
  · exact Naming.resultType_not_taken

/-- Only the name of an entity can collide, with that of an input or a result type. -/
theorem claimedNames_nodup (h : Prepared models s) :
    s.claimedNames.Nodup ↔ Separate models := by
  have hCoherent := h.fresh.supplied.coherent
  have hStanding := s.standingNames_sublist
  -- of the three parts of the claimed names only the first two can meet
  have hOperations : ∀ a ∈ s.operationNames, ∀ b ∈ s.standingNames, a ≠ b := by
    intro a ha b hb hSame
    apply h.operationNames_not_taken ha
    rw [hSame]
    exact List.mem_append_left _ (List.mem_append_left _ (hStanding.subset hb))
  have hObjects : ∀ a ∈ s.registry.objects.keys, a ∉ s.standingNames := by
    intro a ha hb
    obtain ⟨m, hm, rfl⟩ := hCoherent.mem_objects_iff.mp ha
    obtain ⟨hScalar, hReserved⟩ := h.sound.clean.free m (h.mem_models.mp hm)
    have hKnown : ∀ n ∈ ["Query", "Mutation", "Sort", "Paginate", "DateTime"],
        n ∈ defaultScalars ∨ n ∈ Audit.reservedNames := by decide +kernel
    exact (hKnown _ (hStanding.subset hb)).elim hScalar hReserved
  rw [s.claimedNames_perm.nodup_iff, List.nodup_append, List.nodup_append]
  constructor
  · rintro ⟨-, -, hApart⟩ m hm o ho kind hKind m' hm'
    have hObject := hCoherent.mem_objects_iff.mpr ⟨m', h.mem_models.mpr hm', rfl⟩
    have hName : ∀ name, name = Naming.inputType m.name kind ∨
        name = Naming.resultType m.name kind → m'.name ≠ name := by
      intro name hName
      have hMem := h.mem_operationNames.mpr ⟨m, hm, o, ho, kind, hKind, hName⟩
      exact hApart _ hObject name (List.mem_append_left _ hMem)
    exact ⟨hName _ (Or.inl rfl), hName _ (Or.inr rfl)⟩
  · intro hSeparate
    refine ⟨hCoherent.nodup, ⟨h.operationNames_nodup, hStanding.nodup (by decide +kernel),
      hOperations⟩, ?_⟩
    intro a ha b hb hSame
    rcases List.mem_append.mp hb with hb | hb
    · obtain ⟨m', hm', rfl⟩ := hCoherent.mem_objects_iff.mp ha
      obtain ⟨m, hm, o, ho, kind, hKind, hName⟩ := h.mem_operationNames.mp hb
      obtain ⟨hInput, hResult⟩ := hSeparate m hm o ho kind hKind m' (h.mem_models.mp hm')
      rcases hName with hName | hName
      · exact hInput (hSame.trans hName)
      · exact hResult (hSame.trans hName)
    · exact hObjects a ha (hSame ▸ hb)

end Prepared

namespace Sound

variable [Limits] {models : List Model}

/-! ## Compilations -/

/-- Clean definitions compile exactly if no name collides and all validators can be written. -/
theorem compile_ok_iff (h : Sound models) {config : Configuration}
    (hPlain : config.formatSource = false) :
    (∃ output, (compile config none models).value = .ok output) ↔
      Separate models ∧ ∀ m ∈ models, m.HasText := by
  obtain ⟨s, hRegister, hPrepared⟩ := h.prepared
  constructor
  · rintro ⟨output, hOutput⟩
    obtain ⟨registry, pieces, hRegister', hPieces, hBuild, -⟩ := compile_eq_ok.mp hOutput
    obtain rfl := Except.ok.inj (hRegister.symm.trans hRegister')
    refine ⟨hPrepared.claimedNames_nodup.mp ?_, fun m hm => ?_⟩
    · rcases hPrepared.fresh.build_cases with ⟨hNodup, -⟩ | ⟨-, name, hError⟩
      · exact hNodup
      · cases hError.symm.trans hBuild
    · obtain ⟨piece, -, hPiece⟩ := mem_mapM hPieces hm
      exact (render_ok_iff (h.wellFormed m hm)).mp ⟨piece, hPiece⟩
  · rintro ⟨hSeparate, hText⟩
    have hRender : ∀ m ∈ models, ∃ piece, Handlers.render config m = .ok piece :=
      fun m hm => (render_ok_iff (h.wellFormed m hm)).mpr (hText m hm)
    obtain ⟨pieces, hPieces⟩ := mapM_ok hRender
    obtain ⟨document, hDocument⟩ := document_ok h.wellFormed
    have hNodup := hPrepared.claimedNames_nodup.mpr hSeparate
    rcases hPrepared.fresh.build_cases with ⟨-, schema, hBuild⟩ | ⟨hNot, -⟩
    · have hSource : (Handlers.Module.mk pieces "").source config =
          .ok (Handlers.Module.mk pieces "").plainSource := by
        simp [Handlers.Module.source, hPlain]
      exact ⟨⟨schema, document, _⟩, compile_eq_ok.mpr
        ⟨s.registry, pieces, hRegister, hPieces, hBuild, hDocument, hSource⟩⟩
    · exact absurd hNodup hNot

/-- A compilation of clean definitions fails only for a repeated name or for a value that cannot be
written. -/
theorem compile_error (h : Sound models) {config : Configuration}
    (hPlain : config.formatSource = false) {failure : Failure}
    (hError : (compile config none models).value = .error failure) :
    (∃ flaw : Value.Flaw, failure = flaw.failure) ∨ ∃ name, failure = .duplicateType name := by
  have hOutcome := compile_outcome h.wellFormed hPlain
  rw [hError] at hOutcome
  rcases hOutcome with ⟨earlier, m, later, _, hModels, -, hRefused, hFails⟩ |
      ⟨-, ⟨_, hDone⟩ | ⟨type, hAstray, -⟩ | ⟨name, hFails⟩⟩
  · obtain rfl := Except.error.inj hFails
    cases hRefused with
    | text => exact Or.inl ⟨_, rfl⟩
    | name _ hReserved =>
      have hName := h.checkTypeName_ok (hModels ▸ List.mem_append_right _ List.mem_cons_self)
      rw [checkTypeName, hReserved] at hName
      cases hName
  · cases hDone
  · obtain ⟨m, hm, t, ht, rfl⟩ := hAstray.relationship
    rcases h.clean.targets m hm t ht with hScalar | ⟨m', hm', hName⟩
    · exact absurd hScalar hAstray.notScalar
    · exact absurd hName (hAstray.notEntity m' hm')
  · exact Or.inr ⟨name, Except.error.inj hFails⟩

end Sound

end EntityGraph
