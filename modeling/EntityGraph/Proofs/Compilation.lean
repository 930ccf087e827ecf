import EntityGraph.Proofs.Session

/-!
# What a compilation consists of

A compilation succeeds exactly if all its parts do, each of which can be looked at by itself: the
registrations, the handlers of every entity, the schema, the document and the text of the module.

* `Session.addAll_eq_ok`: what additions one after another do;
* `compile_eq_ok`: the parts of an output;
* `Model.flaw?`: what keeps the validators of an entity from being written;
* `render_settled`: the handlers of a well-formed entity exist unless there is such a flaw.
-/

namespace EntityGraph

open Outcome

/-! ## Validators and handlers -/

/-- The known kinds of validators are those of the table. -/
theorem mem_kinds {kind : String} (h : isValidatorKind kind = true) :
    kind ∈ Signature.table.map (·.1) := by
  obtain ⟨signature, hFound⟩ := Option.isSome_iff_exists.mp h
  obtain ⟨e, hFind, -⟩ := Option.map_eq_some_iff.mp hFound
  obtain rfl : e.1 = kind := by simpa using List.find?_some hFind
  exact List.mem_map_of_mem (List.mem_of_find?_eq_some hFind)

theorem Model.hasOperations_iff {m : Model} : m.hasOperations = true ↔ m.operations ≠ [] := by
  simp [Model.hasOperations]

theorem Value.Flaw.failure_inj {flaw flaw' : Value.Flaw} (h : flaw.failure = flaw'.failure) :
    flaw = flaw' := by
  cases flaw <;> cases flaw' <;> first | rfl | cases h

namespace Handlers.Piece

theorem mem_validatorsOf {o : Operation} {field : String} {v : Validator} :
    (field, v) ∈ validatorsOf o ↔ ∃ a ∈ o.arguments, a.name = field ∧ v ∈ a.validators := by
  simp only [validatorsOf, List.mem_flatMap, List.mem_map, Prod.mk.injEq]
  constructor
  · rintro ⟨a, ha, v', hv, rfl, rfl⟩
    exact ⟨a, ha, rfl, hv⟩
  · rintro ⟨a, ha, rfl, hv⟩
    exact ⟨a, ha, v, hv, rfl, rfl⟩

theorem classOf_ok {m : Model} (h : m.WellFormed) : ∃ handlers, classOf m = .ok handlers := by
  have hEach : ∀ o ∈ m.operations, ∃ x, handlersOf m o = .ok x := by
    intro o ho
    obtain ⟨kind, hKind⟩ := (h.operations o ho).kind
    exact ⟨_, bind_eq_ok.mpr ⟨kind, hKind, rfl⟩⟩
  obtain ⟨xs, hAll⟩ := mapM_ok hEach
  exact ⟨_, bind_eq_ok.mpr ⟨xs, hAll, rfl⟩⟩

theorem statement?_eq_some {target field : String} {v : Validator} {s : Statement}
    (h : v.statement? target field = some s) : s.target = target ∧ s.field = field := by
  obtain ⟨signature, -, rfl⟩ := Option.map_eq_some_iff.mp h
  exact ⟨rfl, rfl⟩

end Handlers.Piece

variable [Limits]

/-! ## Sessions -/

namespace Session

/-- Additions one after another render every entity and register it. -/
theorem addAll_eq_ok {s s' : Session} (hOpen : s.output = none) {ms : List Model} :
    (s.addAll ms).value = (s', .ok ()) ↔ ∃ pieces registry,
      ms.mapM (Handlers.render s.config) = .ok pieces ∧
      Schema.register s.registry ms = .ok registry ∧
      s' = { s with
        registry
        module := { s.module with pieces := s.module.pieces ++ pieces } } := by
  induction ms generalizing s with
  | nil =>
    constructor
    · intro h
      obtain ⟨rfl, -⟩ := Prod.mk.inj h
      exact ⟨[], s.registry, rfl, rfl, by simp⟩
    · rintro ⟨_, _, hPieces, hRegister, rfl⟩
      obtain rfl := pure_eq_ok.mp hPieces
      obtain rfl := Except.ok.inj hRegister
      simp [addAll]
  | cons m ms ih =>
    rw [addAll, Logged.value_bind]
    cases hAdd : (s.add m).value with
    | error failure =>
      simp only [Logged.value_pure, Prod.mk.injEq, reduceCtorEq, and_false, false_iff]
      rintro ⟨_, registry, hPieces, hRegister, -⟩
      rw [List.mapM_cons] at hPieces
      obtain ⟨piece, hPiece, -⟩ := bind_eq_ok.mp hPieces
      obtain ⟨next, hNext, -⟩ := bind_eq_ok.mp hRegister
      have hAdded := add_eq_ok.mpr ⟨by simp [isFinalized, hOpen], piece, next, hPiece, hNext, rfl⟩
      cases hAdd.symm.trans hAdded
    | ok next =>
      obtain ⟨-, piece, registry, hPiece, hRegister, hNext⟩ := add_eq_ok.mp hAdd
      have hStill : next.output = none := by rw [hNext, hOpen]
      refine (ih hStill).trans ?_
      subst hNext
      rw [List.mapM_cons]
      constructor
      · rintro ⟨pieces, last, hPieces, hRest, rfl⟩
        refine ⟨piece :: pieces, last, bind_eq_ok.mpr ⟨piece, hPiece, ?_⟩,
          bind_eq_ok.mpr ⟨registry, hRegister, hRest⟩, by simp⟩
        exact bind_eq_ok.mpr ⟨pieces, hPieces, rfl⟩
      · rintro ⟨all, last, hAll, hRest, rfl⟩
        obtain ⟨piece', hPiece', hMore⟩ := bind_eq_ok.mp hAll
        obtain ⟨pieces, hPieces, hEq⟩ := bind_eq_ok.mp hMore
        obtain rfl := pure_eq_ok.mp hEq
        obtain rfl := Except.ok.inj (hPiece.symm.trans hPiece')
        obtain ⟨registry', hRegister', hRest⟩ := bind_eq_ok.mp hRest
        obtain rfl := Except.ok.inj (hRegister.symm.trans hRegister')
        exact ⟨pieces, last, hPieces, hRest, by simp⟩

/-- An open session that can be finalized has a schema, a document and a text. -/
theorem finalize_eq_ok {s : Session} (hOpen : s.output = none) {output : Output} :
    s.finalize.value.2 = .ok output ↔ (Schema.build s.registry).value.2 = .ok output.schema ∧
      Document.ofModels s.models = .ok output.document ∧
      s.module.source s.config = .ok output.source := by
  obtain ⟨schema, document, source⟩ := output
  rw [finalize_value hOpen]
  cases (Schema.build s.registry).value.2 with
  | error failure => simp
  | ok schema' =>
    simp only [outputOf, Document.build, Logged.value_bind]
    cases Document.ofModels s.models with
    | error failure => simp
    | ok document' =>
      simp only [Logged.value_bind, Logged.value_pure, Handlers.Module.create]
      cases s.module.source s.config with
      | error failure => simp
      | ok source' => simp

end Session

/-- The parts of an output. -/
theorem compile_eq_ok {config : Configuration} {scalars : Option (List String)}
    {models : List Model} {output : Output} :
    (compile config scalars models).value = .ok output ↔
      ∃ registry pieces,
        Schema.register { scalars := scalars.getD Schema.defaultScalars } models = .ok registry ∧
        models.mapM (Handlers.render config) = .ok pieces ∧
        (Schema.build registry).value.2 = .ok output.schema ∧
        Document.ofModels models = .ok output.document ∧
        (Handlers.Module.mk pieces "").source config = .ok output.source := by
  have hStart : (Session.start config scalars).output = none := rfl
  have hAdditions := fun s => @Session.addAll_eq_ok _ _ s hStart models
  unfold compile
  simp only [Logged.value_bind]
  rcases hAll : ((Session.start config scalars).addAll models).value with ⟨s, failure | u⟩
  · simp only [Logged.value_pure, reduceCtorEq, false_iff]
    rintro ⟨registry, pieces, hRegister, hPieces, -⟩
    have hDone := (hAdditions _).mpr ⟨pieces, registry, hPieces, hRegister, rfl⟩
    cases hAll.symm.trans hDone
  · obtain ⟨pieces, registry, hPieces, hRegister, hLast⟩ := (hAdditions s).mp hAll
    have hOpen : s.output = none := by rw [hLast, hStart]
    have hModels : s.models = models := by
      rw [hLast]
      exact (Schema.register_spec hRegister).2.2.1
    simp only [Logged.value_bind, Logged.value_pure]
    rw [Session.finalize_eq_ok hOpen, hModels, hLast]
    constructor
    · rintro ⟨hSchema, hDocument, hSource⟩
      exact ⟨registry, pieces, hRegister, hPieces, hSchema, hDocument, hSource⟩
    · rintro ⟨registry', pieces', hRegister', hPieces', hRest⟩
      obtain rfl := Except.ok.inj (hRegister.symm.trans hRegister')
      obtain rfl := Except.ok.inj (hPieces.symm.trans hPieces')
      exact hRest

/-! ## Handlers -/

/-- An entity of whose validators all can be written. -/
def Model.HasText (m : Model) : Prop :=
  ∀ o ∈ m.operations, ∀ a ∈ o.arguments, ∀ v ∈ a.validators, v.hasText = true

namespace Handlers.Piece

theorem statement_eq_ok {target field : String} {v : Validator} {s : Statement} :
    statement target field v = .ok s ↔
      v.statement? target field = some s ∧ v.hasText = true := by
  unfold statement Validator.hasText
  cases v.statement? target field with
  | none => simp
  | some s' => cases v.flaw? <;> simp

/-- The statement of a validator of a known kind. -/
theorem statement_known {signature : Signature} {v : Validator}
    (hSignature : signature? v.kind = some signature) (target field : String) :
    statement target field v =
      match v.flaw? with
      | none => .ok ⟨v.kind, signature.parameters v.bag, target, field⟩
      | some flaw => .error flaw.failure := by
  rw [statement, Validator.statement?, hSignature]
  cases v.flaw? <;> rfl

theorem statement_settled {v : Validator} (hKind : isValidatorKind v.kind = true)
    (target field : String) :
    Settled Value.Flaw.failure (statement target field v) v.flaw? := by
  obtain ⟨signature, hSignature⟩ := Option.isSome_iff_exists.mp hKind
  rw [statement_known hSignature]
  cases v.flaw? with
  | none => exact .ok _
  | some flaw => exact .error flaw

/-- The first flaw in the validators of an operation. -/
def flawOf? (o : Operation) : Option Value.Flaw := (validatorsOf o).findSome? fun av => av.2.flaw?

theorem statementsOf_eq_ok {m : Model} {o : Operation} {ss : List Statement} :
    statementsOf m o = .ok ss ↔ ∃ kind, o.kind? = .ok kind ∧ (validatorsOf o).mapM
      (fun av => statement (Naming.inputType m.name kind) av.1 av.2) = .ok ss :=
  bind_eq_ok

/-- The parts of a contribution. -/
theorem ofModel_eq_ok {package validators : String} {m : Model} {p : Piece} :
    ofModel package validators m = .ok p ↔ ∃ ss handlers,
      m.operations.mapM (statementsOf m) = .ok ss ∧ classOf m = .ok handlers ∧
      p = ⟨m.name, importsOf package validators m, ss.flatten, handlers⟩ := by
  unfold ofModel
  rw [bind_eq_ok]
  constructor
  · rintro ⟨ss, hStatements, h⟩
    obtain ⟨handlers, hClass, hEq⟩ := bind_eq_ok.mp h
    exact ⟨ss, handlers, hStatements, hClass, (pure_eq_ok.mp hEq).symm⟩
  · rintro ⟨ss, handlers, hStatements, hClass, rfl⟩
    exact ⟨ss, hStatements, bind_eq_ok.mpr ⟨handlers, hClass, rfl⟩⟩

section Statements

variable {package validators : String} {m : Model} {p : Piece}

/-- A statement of a contribution is that of a validator of an argument. -/
theorem statement_origin (h : ofModel package validators m = .ok p) {s : Statement}
    (hs : s ∈ p.statements) : ∃ o ∈ m.operations, ∃ kind, o.kind? = .ok kind ∧
      ∃ a ∈ o.arguments, ∃ v ∈ a.validators,
        statement (Naming.inputType m.name kind) a.name v = .ok s := by
  obtain ⟨ss, handlers, hStatements, -, hPiece⟩ := ofModel_eq_ok.mp h
  rw [hPiece] at hs
  obtain ⟨ofOperation, hMem, hs⟩ := List.mem_flatten.mp hs
  obtain ⟨o, ho, hOperation⟩ := mapM_mem hStatements hMem
  obtain ⟨kind, hKind, hEach⟩ := statementsOf_eq_ok.mp hOperation
  obtain ⟨⟨field, v⟩, hPair, hStatement⟩ := mapM_mem hEach hs
  obtain ⟨a, ha, rfl, hv⟩ := mem_validatorsOf.mp hPair
  exact ⟨o, ho, kind, hKind, a, ha, v, hv, hStatement⟩

/-- Every validator of an argument has its statement in the contribution. -/
theorem statement_made (h : ofModel package validators m = .ok p) {o : Operation}
    (ho : o ∈ m.operations) {a : Argument} (ha : a ∈ o.arguments) {v : Validator}
    (hv : v ∈ a.validators) : ∃ kind, o.kind? = .ok kind ∧ ∃ s ∈ p.statements,
      statement (Naming.inputType m.name kind) a.name v = .ok s := by
  obtain ⟨ss, handlers, hStatements, -, hPiece⟩ := ofModel_eq_ok.mp h
  obtain ⟨ofOperation, hMem, hOperation⟩ := mem_mapM hStatements ho
  obtain ⟨kind, hKind, hEach⟩ := statementsOf_eq_ok.mp hOperation
  obtain ⟨s, hs, hStatement⟩ := mem_mapM hEach (mem_validatorsOf.mpr ⟨a, ha, rfl, hv⟩)
  rw [hPiece]
  exact ⟨kind, hKind, s, List.mem_flatten.mpr ⟨ofOperation, hMem, hs⟩, hStatement⟩

/-- A statement of a contribution is about an argument of an operation. -/
theorem mem_statements (h : ofModel package validators m = .ok p) {s : Statement}
    (hs : s ∈ p.statements) : ∃ o ∈ m.operations, ∃ kind, o.kind? = .ok kind ∧
      s.target = Naming.inputType m.name kind ∧ ∃ a ∈ o.arguments, s.field = a.name := by
  obtain ⟨o, ho, kind, hKind, a, ha, v, -, hStatement⟩ := statement_origin h hs
  obtain ⟨hTarget, hField⟩ := statement?_eq_some (statement_eq_ok.mp hStatement).1
  exact ⟨o, ho, kind, hKind, hTarget, a, ha, hField⟩

end Statements

end Handlers.Piece

open Handlers.Piece

/-- The first flaw in the validators of an entity. -/
def Model.flaw? (m : Model) : Option Value.Flaw := m.operations.findSome? flawOf?

theorem Model.hasText_iff {m : Model} : m.HasText ↔ m.flaw? = none := by
  simp only [HasText, flaw?, flawOf?, Validator.hasText, List.findSome?_eq_none_iff, Prod.forall,
    mem_validatorsOf, Option.isNone_iff_eq_none]
  constructor
  · rintro h o ho field v ⟨a, ha, -, hv⟩
    exact h o ho a ha v hv
  · intro h o ho a ha v hv
    exact h o ho a.name v ⟨a, ha, rfl, hv⟩

/-- A well-formed entity contributes to the module unless its validators have a flaw. -/
theorem render_settled {config : Configuration} {m : Model} (h : m.WellFormed) :
    Settled Value.Flaw.failure (Handlers.render config m) m.flaw? := by
  obtain ⟨handlers, hClass⟩ := classOf_ok h
  refine .bind (.mapM fun o ho => ?_) fun ss => ⟨_, by rw [hClass]; rfl⟩
  obtain ⟨kind, hKind⟩ := (h.operations o ho).kind
  have hStatements : statementsOf m o = (validatorsOf o).mapM
      fun av => statement (Naming.inputType m.name kind) av.1 av.2 := by
    rw [statementsOf, hKind]
    rfl
  rw [hStatements]
  refine .mapM fun av hav => ?_
  obtain ⟨a, ha, -, hv⟩ := mem_validatorsOf.mp hav
  exact statement_settled (((h.operations o ho).arguments a ha).validators av.2 hv) _ _

theorem render_ok_iff {config : Configuration} {m : Model} (h : m.WellFormed) :
    (∃ piece, Handlers.render config m = .ok piece) ↔ m.HasText :=
  (render_settled h).ok_iff.trans Model.hasText_iff.symm

end EntityGraph
