import EntityGraph.Audit
import EntityGraph.Input.Definitions
import EntityGraph.Input.Text
import EntityGraph.Proofs.Input.Record
import EntityGraph.Schema.Name

/-!
# What definitions that were read have

Definitions that passed the structural rules have identifiers for names, labels from the closed sets
and validators of known kinds.

* `Model.WellFormed`, `Operation.WellFormed`, `Argument.WellFormed`: the rules as far as the
  compiler relies on them;
* `Model.wellFormed_of_read`: an entity that was read obeys them;
* `Definitions.read_of_parse`: so do all entities of definitions that were parsed.
-/

namespace EntityGraph

open Outcome Input

/-- An argument as the structural rules want it. -/
structure Argument.WellFormed (a : Argument) : Prop where
  name : isIdentifier a.name = true
  type : a.type ∈ scalarLabels
  validators : ∀ v ∈ a.validators, isValidatorKind v.kind = true

/-- An operation as the structural rules want it. -/
structure Operation.WellFormed (o : Operation) : Prop where
  name : isIdentifier o.name = true
  kind : ∃ kind, o.kind? = .ok kind
  arguments : ∀ a ∈ o.arguments, a.WellFormed

/-- An entity as the structural rules want it. -/
structure Model.WellFormed (m : Model) : Prop where
  name : isIdentifier m.name = true
  properties : ∀ p ∈ m.properties, isIdentifier p.name = true ∧ p.type ∈ scalarLabels
  relationships : ∀ r ∈ m.relationships, isIdentifier r.name = true
  operations : ∀ o ∈ m.operations, o.WellFormed

/-! ## Readings of texts -/

theorem identifier_eq_ok {v : Value} {s : String} (h : identifier v = .ok s) :
    isIdentifier s = true := by
  obtain ⟨t, -, hCheck⟩ := bind_eq_ok.mp h
  split at hCheck
  · rename_i hIdentifier
    exact Except.ok.inj hCheck ▸ hIdentifier
  · cases hCheck

theorem oneOf_eq_ok {labels : List String} {v : Value} {s : String}
    (h : oneOf labels v = .ok s) : s ∈ labels := by
  unfold oneOf at h
  split at h
  · split at h
    · rename_i hLabel
      exact Except.ok.inj h ▸ List.contains_iff_mem.mp hLabel
    · cases h
  · cases h
  · cases h

theorem validatorKind_eq_ok {v : Value} {s : String} (h : validatorKind v = .ok s) :
    isValidatorKind s = true := by
  obtain ⟨t, -, hCheck⟩ := bind_eq_ok.mp h
  split at hCheck
  · rename_i hKind
    exact Except.ok.inj hCheck ▸ hKind
  · cases hCheck

/-- Every label of a kind is read as that kind. -/
theorem kind_of_label {o : Operation} (h : o.kind ∈ Kind.all.map Kind.label) :
    ∃ kind, o.kind? = .ok kind := by
  obtain ⟨kind, -, hLabel⟩ := List.mem_map.mp h
  refine ⟨kind, ?_⟩
  rw [Operation.kind?, Kind.read, ← hLabel, Kind.ofLabel?_label]

/-! ## Records -/

theorem validator_of_read {v : Value} {x : Validator} (h : validator.read v = .ok x) :
    isValidatorKind x.kind = true := by
  obtain ⟨es, changes, hChanges, rfl⟩ := Record.read_eq_ok h
  simp only [validator, List.forall₂_cons_left_iff, List.forall₂_nil_left_iff] at hChanges
  obtain ⟨_, _, hKindField, ⟨_, _, hBag, rfl, rfl⟩, rfl⟩ := hChanges
  obtain ⟨_, kind, hKind, rfl⟩ := Record.readField_required hKindField
  exact Record.readField_keeps (P := fun x : Validator => isValidatorKind x.kind = true) hBag
    (fun _ _ _ _ hx => hx) (validatorKind_eq_ok hKind)

theorem argument_of_read {v : Value} {a : Argument} (h : argument.read v = .ok a) :
    a.WellFormed := by
  obtain ⟨es, changes, hChanges, rfl⟩ := Record.read_eq_ok h
  simp only [argument, nameField, labelField, flag, listField, List.forall₂_cons_left_iff,
    List.forall₂_nil_left_iff] at hChanges
  obtain ⟨_, _, hNameField, ⟨_, _, hTypeField, ⟨_, _, hList, ⟨_, _, hRequired,
    ⟨_, _, hValidators, rfl, rfl⟩, rfl⟩, rfl⟩, rfl⟩, rfl⟩ := hChanges
  obtain ⟨_, name, hName, rfl⟩ := Record.readField_required hNameField
  obtain ⟨_, type, hType, rfl⟩ := Record.readField_required hTypeField
  have hStart : Argument.WellFormed ⟨name, type, false, true, []⟩ :=
    ⟨identifier_eq_ok hName, oneOf_eq_ok hType, by simp⟩
  have hFlags := Record.readField_keeps hRequired (fun _ _ _ _ hx => ⟨hx.1, hx.2, hx.3⟩)
    (Record.readField_keeps hList (fun _ _ _ _ hx => ⟨hx.1, hx.2, hx.3⟩) hStart)
  refine Record.readField_keeps hValidators (fun _ xs _ hRead hx => ⟨hx.1, hx.2, ?_⟩) hFlags
  intro x hMem
  obtain ⟨_, hItem⟩ := listOf_mem hRead hMem
  exact validator_of_read hItem

theorem property_of_read {v : Value} {p : Property} (h : property.read v = .ok p) :
    isIdentifier p.name = true ∧ p.type ∈ scalarLabels := by
  obtain ⟨es, changes, hChanges, rfl⟩ := Record.read_eq_ok h
  simp only [property, nameField, labelField, flag, listField, List.forall₂_cons_left_iff,
    List.forall₂_nil_left_iff] at hChanges
  obtain ⟨_, _, hNameField, ⟨_, _, hTypeField, ⟨_, _, hList, ⟨_, _, hRequired, ⟨_, _, hUnique,
    ⟨_, _, hPermissions, rfl, rfl⟩, rfl⟩, rfl⟩, rfl⟩, rfl⟩, rfl⟩ := hChanges
  obtain ⟨_, name, hName, rfl⟩ := Record.readField_required hNameField
  obtain ⟨_, type, hType, rfl⟩ := Record.readField_required hTypeField
  let P : Property → Prop := fun p => isIdentifier p.name = true ∧ p.type ∈ scalarLabels
  have hStart : P ⟨name, type, false, true, false, []⟩ :=
    ⟨identifier_eq_ok hName, oneOf_eq_ok hType⟩
  have hFlags : P _ := Record.readField_keeps (P := P) hUnique (fun _ _ _ _ hx => hx)
    (Record.readField_keeps (P := P) hRequired (fun _ _ _ _ hx => hx)
      (Record.readField_keeps (P := P) hList (fun _ _ _ _ hx => hx) hStart))
  exact Record.readField_keeps (P := P) hPermissions (fun _ _ _ _ hx => hx) hFlags

theorem relationship_of_read {v : Value} {r : Relationship} (h : relationship.read v = .ok r) :
    isIdentifier r.name = true := by
  obtain ⟨es, changes, hChanges, rfl⟩ := Record.read_eq_ok h
  simp only [relationship, nameField, flag, List.forall₂_cons_left_iff,
    List.forall₂_nil_left_iff] at hChanges
  obtain ⟨_, _, hNameField, ⟨_, _, hTypeField, ⟨_, _, hList, ⟨_, _, hRequired, rfl, rfl⟩, rfl⟩,
    rfl⟩, rfl⟩ := hChanges
  obtain ⟨_, name, hName, rfl⟩ := Record.readField_required hNameField
  obtain ⟨_, type, -, rfl⟩ := Record.readField_required hTypeField
  let P : Relationship → Prop := fun r => isIdentifier r.name = true
  have hStart : P ⟨name, type, false, true⟩ := identifier_eq_ok hName
  exact Record.readField_keeps (P := P) hRequired (fun _ _ _ _ hx => hx)
    (Record.readField_keeps (P := P) hList (fun _ _ _ _ hx => hx) hStart)

theorem operation_of_read {v : Value} {o : Operation} (h : operation.read v = .ok o) :
    o.WellFormed := by
  obtain ⟨es, changes, hChanges, rfl⟩ := Record.read_eq_ok h
  simp only [operation, nameField, labelField, listField, List.forall₂_cons_left_iff,
    List.forall₂_nil_left_iff] at hChanges
  obtain ⟨_, _, hNameField, ⟨_, _, hKindField, ⟨_, _, hArguments, ⟨_, _, hPermissions, rfl, rfl⟩,
    rfl⟩, rfl⟩, rfl⟩ := hChanges
  obtain ⟨_, name, hName, rfl⟩ := Record.readField_required hNameField
  obtain ⟨_, kind, hKind, rfl⟩ := Record.readField_required hKindField
  have hStart : Operation.WellFormed ⟨name, kind, [], []⟩ :=
    ⟨identifier_eq_ok hName, kind_of_label (oneOf_eq_ok hKind), by simp⟩
  refine Record.readField_keeps hPermissions (fun _ _ _ _ hx => ⟨hx.1, hx.2, hx.3⟩)
    (Record.readField_keeps hArguments (fun _ xs _ hRead hx => ⟨hx.1, hx.2, ?_⟩) hStart)
  intro a hMem
  obtain ⟨_, hItem⟩ := listOf_mem hRead hMem
  exact argument_of_read hItem

/-- An entity that was read obeys the structural rules. -/
theorem Model.wellFormed_of_read {v : Value} {m : Model} (h : Input.model.read v = .ok m) :
    m.WellFormed := by
  obtain ⟨es, changes, hChanges, rfl⟩ := Record.read_eq_ok h
  simp only [Input.model, nameField, listField, List.forall₂_cons_left_iff,
    List.forall₂_nil_left_iff] at hChanges
  obtain ⟨_, _, hNameField, ⟨_, _, hPropertiesField, ⟨_, _, hRelationships, ⟨_, _, hOperations,
    rfl, rfl⟩, rfl⟩, rfl⟩, rfl⟩ := hChanges
  obtain ⟨_, name, hName, rfl⟩ := Record.readField_required hNameField
  obtain ⟨_, properties, hProperties, rfl⟩ := Record.readField_required hPropertiesField
  have hStart : Model.WellFormed ⟨name, properties, [], []⟩ := by
    refine ⟨identifier_eq_ok hName, fun p hMem => ?_, by simp, by simp⟩
    obtain ⟨_, hItem⟩ := listOf_mem hProperties hMem
    exact property_of_read hItem
  refine Record.readField_keeps hOperations
    (fun _ _ _ hRead hx => ⟨hx.1, hx.2, hx.3, fun o hMem => ?_⟩)
    (Record.readField_keeps hRelationships
      (fun _ _ _ hRead hx => ⟨hx.1, hx.2, fun r hMem => ?_, hx.4⟩) hStart)
  · obtain ⟨_, hItem⟩ := listOf_mem hRead hMem
    exact operation_of_read hItem
  · obtain ⟨_, hItem⟩ := listOf_mem hRead hMem
    exact relationship_of_read hItem

/-- Definitions are read from the list of their entities. -/
theorem Definitions.read_record (v : Value) : Definitions.read (Value.record [("models", v)]) =
    (Checked.under (.name "models") (listOf Input.model.read v)).map Definitions.ofModels := by
  have hRead : Definitions.read (Value.record [("models", v)]) =
      ((Checked.both (Checked.all [Checked.under (.name "models") ((listOf Input.model.read v).map
        fun ms (d : Definitions) => { d with models := ms })]) (.ok ())).map fun p =>
          p.1.foldl (fun d change => change d) { models := [], index := [] }).map
            fun d => Definitions.ofModels d.models := rfl
  rw [hRead]
  cases listOf Input.model.read v with
  | ok ms => rfl
  | error vs => rfl

/-- Every entity of definitions that were parsed was read, and the index is theirs. -/
theorem Definitions.read_of_parse {raw : Value} {d : Definitions} {c : Configuration}
    (h : (parse raw).value = .ok (d, c)) :
    d = .ofModels d.models ∧ ∀ m ∈ d.models, ∃ v, Input.model.read v = .ok m := by
  obtain ⟨⟨models, config⟩, -, hParts⟩ := bind_eq_ok.mp (mapError_eq_ok.mp h)
  obtain ⟨hRead, -⟩ := Checked.both_eq_ok.mp hParts
  rw [read_record] at hRead
  obtain ⟨ms, hModels, rfl⟩ := map_eq_ok.mp hRead
  exact ⟨rfl, fun m hMem => listOf_mem (Checked.under_eq_ok.mp hModels) hMem⟩

end EntityGraph
