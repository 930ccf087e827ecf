import EntityGraph.Proofs.Input.Definitions
import EntityGraph.Proofs.Naming
import EntityGraph.Proofs.Schema.Graph

/-!
# Schemas of well-formed entities

The structural rules leave little that can go wrong with a schema: once every relationship has a
target, the root fields exist, every type that is known has a definition, and every link between two
types is a reference.

* `sources_ok`: the sources exist;
* `Grounded.definition_ok`: every known type has a definition;
* `Grounded.link_refers`: known types refer to each other in all the ways that they can.
-/

namespace EntityGraph.Schema

open Outcome

namespace Registry

theorem has_iff {r : Registry} {name : String} :
    r.has name = true ↔ name ∈ r.scalars ∨ name ∈ r.objects.keys := by
  rw [← Table.get?_isSome_iff]
  unfold has find? objectKey?
  by_cases h : name ∈ r.scalars
  · simp [h]
  · simp [h, Option.isSome_iff_exists]

/-- The name of every entity leads to an object type. -/
theorem Coherent.object_of_mem {r : Registry} (h : r.Coherent) {m : Model} (hm : m ∈ r.models) :
    ∃ slot, r.objects.get? m.name = some slot := by
  rw [← h.models] at hm
  obtain ⟨e, he, rfl⟩ := List.mem_map.mp hm
  exact Table.get?_isSome_iff.mpr (h.registered e he)

/-- The names of object types are the names of entities. -/
theorem Coherent.mem_objects_iff {r : Registry} (h : r.Coherent) {name : String} :
    name ∈ r.objects.keys ↔ ∃ m ∈ r.models, m.name = name := by
  constructor
  · intro hMem
    obtain ⟨slot, hSlot⟩ := Table.get?_isSome_iff.mpr hMem
    obtain ⟨e, hEntry, rfl⟩ := h.object hSlot
    exact ⟨e.model, h.mem_models (List.mem_of_getElem? hEntry), rfl⟩
  · rintro ⟨m, hm, rfl⟩
    exact Table.get?_isSome_iff.mp (h.object_of_mem hm)

/-- The types of a well-formed operation exist if the registry has the scalars. -/
theorem Coherent.make_ok {r : Registry} (h : r.Coherent) (hScalars : scalarLabels ⊆ r.scalars)
    {m : Model} (hm : m ∈ r.models) {o : Operation} (ho : o.WellFormed) :
    ∃ t, OperationTypes.make r m o = .ok t := by
  obtain ⟨kind, hKind⟩ := ho.kind
  obtain ⟨slot, hSlot⟩ := h.object_of_mem hm
  have hHas : ∀ a ∈ o.arguments, r.has a.type = true :=
    fun a ha => has_iff.mpr (Or.inl (hScalars (ho.arguments a ha).type))
  have hArgs := argumentFields_eq_ok.mpr ⟨hHas, rfl⟩
  exact ⟨_, OperationTypes.make_eq_ok.mpr ⟨kind, slot, _, hKind, hSlot, hArgs, rfl⟩⟩

end Registry

/-- A registry of well-formed entities that has all the types it needs. -/
structure Registry.Supplied (r : Registry) : Prop where
  coherent : r.Coherent
  scalars : scalarLabels ⊆ r.scalars
  wellFormed : ∀ m ∈ r.models, m.WellFormed
  targets : ∀ m ∈ r.models, ∀ t ∈ m.relationships, r.has t.type = true

namespace Registry.Supplied

variable {r : Registry}

theorem has_label (h : r.Supplied) {label : String} (hLabel : label ∈ scalarLabels) :
    r.has label = true :=
  Registry.has_iff.mpr (Or.inl (h.scalars hLabel))

theorem modelFields_ok (h : r.Supplied) {m : Model} (hm : m ∈ r.models) :
    modelFields r m = .ok ((surviving (declarations m)).mapValues (Declaration.typeIn r)) :=
  modelFields_of_has (h.has_label (by decide))
    (fun p hp => h.has_label ((h.wellFormed m hm).properties p hp).2) (h.targets m hm)

theorem make_ok (h : r.Supplied) {m : Model} (hm : m ∈ r.models) {o : Operation}
    (ho : o ∈ m.operations) : ∃ t, OperationTypes.make r m o = .ok t :=
  h.coherent.make_ok h.scalars hm ((h.wellFormed m hm).operations o ho)

theorem ofRoot_ok (h : r.Supplied) (root : Root) :
    ∃ fields, (RootFields.ofRoot r root).value = .ok fields := by
  have hMake : ∀ mo ∈ RootFields.operationsOf r root,
      ∃ t, OperationTypes.make r mo.1 mo.2 = .ok t := by
    rintro ⟨m, o⟩ hOperation
    obtain ⟨hm, ho⟩ := RootFields.mem_operations.mp (List.mem_of_mem_filter hOperation)
    exact h.make_ok hm ho
  obtain ⟨ts, hTypes⟩ := mapM_ok hMake
  refine ⟨_, RootFields.ofRoot_eq_ok.mpr ⟨?_, ts, hTypes, rfl⟩⟩
  rintro ⟨m, o⟩ hOperation
  obtain ⟨hm, ho⟩ := RootFields.mem_operations.mp hOperation
  exact ((h.wellFormed m hm).operations o ho).kind

/-- The sources of a schema exist. -/
theorem sources_ok (h : r.Supplied) : ∃ s, (sources r).value = .ok s := by
  obtain ⟨query, hQuery⟩ := h.ofRoot_ok .query
  obtain ⟨mutation, hMutation⟩ := h.ofRoot_ok .mutation
  refine ⟨⟨r, query, mutation⟩, sources_eq_ok.mpr ⟨?_, rfl, hQuery, hMutation⟩⟩
  exact checkReferences_eq_ok.mpr fun m hm => ⟨_, h.modelFields_ok hm⟩

end Registry.Supplied

/-! ## Names of fields -/

theorem checkName_declaration {m : Model} (h : m.WellFormed) {d : Declaration}
    (hd : d ∈ declarations m) : checkName d.name = .ok () := by
  rcases mem_declarations.mp hd with rfl | ⟨p, hp, rfl⟩ | ⟨t, ht, rfl⟩
  · exact checkName_of_isIdentifier (by decide +kernel)
  · exact checkName_of_isIdentifier (h.properties p hp).1
  · exact checkName_of_isIdentifier (h.relationships t ht)

theorem checkName_modelFields {r : Registry} {m : Model} (h : m.WellFormed)
    {fields : Table TypeExpr} (hFields : modelFields r m = .ok fields) :
    ∀ k ∈ fields.keys, checkName k = .ok () := by
  intro k hk
  obtain ⟨-, rfl⟩ := modelFields_eq_ok.mp hFields
  obtain ⟨f, hf, rfl⟩ := List.mem_map.mp hk
  obtain ⟨d, hd, hName, -⟩ := mem_resolved hf
  exact hName ▸ checkName_declaration h hd

namespace Sources.Grounded

variable {s : Sources}

/-- The operation that a root field runs. -/
theorem operation_of_field (h : s.Grounded) {r : Root} {f : String × OperationTypes}
    (hf : f ∈ s.fieldsOf r) : ∃ m ∈ s.registry.models, ∃ o ∈ m.operations,
      OperationTypes.make s.registry m o = .ok f.2 ∧ f.1 = Naming.rootField o.name m.name := by
  obtain ⟨hName, -, m, hm, o, ho, hMake⟩ :=
    RootFields.ofRoot_mem (h.fields r) hf
  obtain ⟨kind, slot, args, -, -, -, hTypes⟩ := OperationTypes.make_eq_ok.mp hMake
  refine ⟨m, hm, o, ho, hMake, ?_⟩
  rw [hName, hTypes]

section

variable (h : s.Grounded) (hWell : ∀ m ∈ s.registry.models, m.WellFormed)
include h hWell

theorem checkName_root (r : Root) : ∀ k ∈ (s.fieldsOf r).keys, checkName k = .ok () := by
  intro k hk
  obtain ⟨f, hf, rfl⟩ := List.mem_map.mp hk
  obtain ⟨m, hm, o, ho, -, hName⟩ := h.operation_of_field hf
  rw [hName]
  have hModel := hWell m hm
  exact checkName_of_isIdentifier (isIdentifier_append (hModel.operations o ho).name hModel.name)

theorem checkName_input {r : Root} {f : String × OperationTypes} (hf : f ∈ s.fieldsOf r) :
    ∀ k ∈ f.2.input.keys, checkName k = .ok () := by
  intro k hk
  obtain ⟨g, hg, rfl⟩ := List.mem_map.mp hk
  obtain ⟨m, hm, o, ho, hMake, -⟩ := h.operation_of_field hf
  obtain ⟨kind, slot, args, -, -, hArgs, hTypes⟩ := OperationTypes.make_eq_ok.mp hMake
  rw [hTypes] at hg
  rcases mem_shapeInput hg with hArg | ⟨hID, -⟩ | ⟨-, rfl | rfl⟩
  · obtain ⟨a, ha, hName⟩ := List.mem_map.mp
      ((argumentFields_keys hArgs).mp (Table.mem_keys_of_mem hArg))
    exact hName ▸ checkName_of_isIdentifier (((hWell m hm).operations o ho).arguments a ha).name
  · exact hID ▸ checkName_of_isIdentifier (by decide +kernel)
  · exact checkName_of_isIdentifier (by decide +kernel)
  · exact checkName_of_isIdentifier (by decide +kernel)

theorem slotFields_ok {slot : Nat} {e : Slot} (hSlot : s.registry.slots[slot]? = some e) :
    ∃ fields, s.slotFields slot = .ok fields := by
  unfold slotFields
  rw [hSlot]
  cases hKept : e.fields with
  | some kept => exact ⟨kept, by simp only [hKept]⟩
  | none =>
    have hm := h.coherent.mem_models (List.mem_of_getElem? hSlot)
    obtain ⟨fields, hFields⟩ := checkReferences_eq_ok.mp h.references e.model hm
    refine ⟨fields, ?_⟩
    simp only [hKept, hFields]
    exact checkFieldNames_eq_ok.mpr ⟨rfl, checkName_modelFields (hWell e.model hm) hFields⟩

theorem definition_root (r : Root) :
    s.definition (rootKey r) = .ok (.object ((s.fieldsOf r).map rootField)) :=
  definition_root_eq_ok.mpr ⟨h.checkName_root hWell r, rfl⟩

theorem definition_input {r : Root} {f : String × OperationTypes} (hf : f ∈ s.fieldsOf r) :
    s.definition f.2.inputKey = .ok (.input (f.2.input.map fun g => ⟨g.1, g.2, none⟩)) :=
  (h.definition_input_eq_ok hf).mpr ⟨h.checkName_input hWell hf, rfl⟩

/-- Every known type has a definition. -/
theorem definition_ok {k : TypeKey} (hk : s.Known k) : ∃ d, s.definition k = .ok d := by
  cases hk with
  | scalar => exact ⟨_, rfl⟩
  | introspection => exact ⟨_, rfl⟩
  | sort => exact ⟨_, rfl⟩
  | paginate => exact ⟨_, rfl⟩
  | entity hSlot =>
    obtain ⟨fields, hFields⟩ := h.slotFields_ok hWell hSlot
    exact ⟨_, definition_entity_eq_ok.mpr ⟨fields, hFields, rfl⟩⟩
  | root r => exact ⟨_, h.definition_root hWell r⟩
  | input hf => exact ⟨_, h.definition_input hWell hf⟩
  | result hf => exact ⟨_, h.definition_result hf⟩

/-- Every link is a reference. -/
theorem link_refers {a b : TypeKey} (hLink : s.Link a b) : Refers s.definition a b := by
  cases hLink with
  | field hSlot hFields hf => exact refers_entity.mpr ⟨_, hFields, _, hf, rfl⟩
  | column => exact refers_sort.mpr rfl
  | amount => exact refers_paginate.mpr rfl
  | @input r f hf => exact refers_root.mpr ⟨h.checkName_root hWell r, f, hf, Or.inr rfl⟩
  | @result r f hf => exact refers_root.mpr ⟨h.checkName_root hWell r, f, hf, Or.inl rfl⟩
  | argument hf hg => exact (h.refers_input hf).mpr ⟨h.checkName_input hWell hf, _, hg, rfl⟩
  | entry hf hg => exact (h.refers_result hf).mpr ⟨_, hg, rfl⟩

end

end Sources.Grounded

end EntityGraph.Schema
