import EntityGraph.Proofs.Schema.Claimed

/-!
# What a schema holds under a name

A schema that was built has one type under each of its names, with the definition that its sources
give it.  So everything that a client can look up by name is known: the fields of a root, those of
an input or a result type, and those of an entity, down to the scalars.

* `find?`, `objectFields?`, `inputFields?`: a type by name, and its fields;
* `Sources.Makes`: a schema that holds the types of its sources;
* `makes_of_build`, `Fresh.makes`: every schema that was built does;
* `Makes.find?_eq`: a type is found under its name.
-/

namespace EntityGraph.Schema

open Outcome

/-- The type under a name, with its definition. -/
def find? (schema : Schema) (name : String) : Option (TypeKey × TypeDef) :=
  schema.types.find? fun e => e.1.name = name

/-- The fields of the object type under a name. -/
def objectFields? (schema : Schema) (name : String) : Option (List ObjectField) :=
  match schema.find? name with
  | some (_, .object fields) => some fields
  | _ => none

/-- The fields of the input type under a name. -/
def inputFields? (schema : Schema) (name : String) : Option (List InputField) :=
  match schema.find? name with
  | some (_, .input fields) => some fields
  | _ => none

namespace Sources

/-- A schema that holds the types of its sources under different names. -/
structure Makes (s : Sources) (schema : Schema) : Prop where
  complete : s.Complete (schema.types.map (·.1))
  names : (schema.types.map (·.1.name)).Nodup
  defined : ∀ e ∈ schema.types, s.definition e.1 = .ok e.2

theorem makes_of_schemaOf {s : Sources} {keys : List TypeKey} {schema : Schema}
    (hComplete : s.Complete keys) (h : s.schemaOf keys = .ok schema) : s.Makes schema := by
  obtain ⟨hNames, hTypes⟩ := schemaOf_eq_ok.mp h
  have hKeys : keys = schema.types.map (·.1) := by
    rw [← List.forall₂_eq_eq_eq, List.forall₂_map_right_iff]
    exact hTypes.imp fun key e he => he.1.symm
  rw [hKeys, List.forall₂_map_left_iff, List.forall₂_same] at hTypes
  rw [hKeys, List.map_map] at hNames
  exact ⟨hKeys ▸ hComplete, hNames, fun e he => (hTypes e he).2⟩

/-- A schema that was built was made of sources found in its registry. -/
theorem makes_of_build {r : Registry} (h : r.Coherent) {schema : Schema}
    (hBuild : (Schema.build r).value.2 = .ok schema) :
    ∃ s : Sources, s.registry = r ∧ s.Grounded ∧ s.Makes schema := by
  obtain ⟨s, keys, hSources, hTypes, hSchema⟩ := build_eq_ok.mp hBuild
  obtain ⟨hRegistry, hGrounded⟩ := grounded h hSources
  obtain ⟨hComplete, -⟩ := hGrounded.types_spec (P := fun _ => True)
    (fun _ _ _ _ _ => trivial) (fun _ _ => trivial) hTypes
  exact ⟨s, hRegistry, hGrounded, makes_of_schemaOf hComplete hSchema⟩

/-- A schema that was built holds the types of its sources. -/
theorem Fresh.makes {s : Sources} (h : s.Fresh) {schema : Schema}
    (hBuild : (Schema.build s.registry).value.2 = .ok schema) : s.Makes schema := by
  rw [build_value, h.sources] at hBuild
  simp only [Sources.build] at hBuild
  cases hTypes : s.types with
  | error halt =>
    rw [hTypes] at hBuild
    cases hBuild
  | ok keys =>
    rw [hTypes] at hBuild
    exact makes_of_schemaOf (h.mem_types hTypes).1 hBuild

namespace Makes

variable {s : Sources} {schema : Schema}

theorem find?_of_mem (h : s.Makes schema) {e : TypeKey × TypeDef} (he : e ∈ schema.types) :
    schema.find? e.1.name = some e := by
  unfold find?
  cases hFind : schema.types.find? fun t => t.1.name = e.1.name with
  | none =>
    have hNone := List.find?_eq_none.mp hFind e he
    simp at hNone
  | some t =>
    have hName : t.1.name = e.1.name := by simpa using List.find?_some hFind
    have hSame := List.inj_on_of_nodup_map h.names (List.mem_of_find?_eq_some hFind) he hName
    rw [hSame]

/-- A type is found under its name with its definition. -/
theorem find?_eq (h : s.Makes schema) {key : TypeKey} (hKey : key ∈ schema.types.map (·.1))
    {d : TypeDef} (hDef : s.definition key = .ok d) : schema.find? key.name = some (key, d) := by
  obtain ⟨e, he, rfl⟩ := List.mem_map.mp hKey
  have hFound := h.find?_of_mem he
  obtain rfl := Except.ok.inj ((h.defined e he).symm.trans hDef)
  exact hFound

theorem find?_scalar (h : s.Makes schema) {name : String}
    (hKey : scalarKey name ∈ schema.types.map (·.1)) :
    schema.find? name = some (scalarKey name, .scalar) :=
  h.find?_eq hKey rfl

/-! ## Fields by name -/

section

variable (h : s.Makes schema) (hFresh : s.Fresh)
include h hFresh

theorem objectFields?_root (r : Root) :
    schema.objectFields? r.typeName = some ((s.fieldsOf r).map rootField) := by
  have hDef := hFresh.grounded.definition_root hFresh.supplied.wellFormed r
  have hFind : schema.find? r.typeName = some (rootKey r, _) := h.find?_eq (h.complete.root_mem r) hDef
  rw [objectFields?, hFind]

theorem inputFields?_eq {r : Root} {f : String × OperationTypes} (hf : f ∈ s.fieldsOf r) :
    schema.inputFields? f.2.inputKey.name = some (f.2.input.map fun g => ⟨g.1, g.2, none⟩) := by
  have hDef := hFresh.grounded.definition_input hFresh.supplied.wellFormed hf
  have hMem := (hFresh.operation_mem h.complete hf).1
  rw [inputFields?, h.find?_eq hMem hDef]

theorem objectFields?_result {r : Root} {f : String × OperationTypes} (hf : f ∈ s.fieldsOf r) :
    schema.objectFields? f.2.resultKey.name = some (plainFields f.2.result) := by
  have hDef := hFresh.grounded.definition_result hf
  have hMem := (hFresh.operation_mem h.complete hf).2
  rw [objectFields?, h.find?_eq hMem hDef]

/-- The object type of an entity has the fields that survive among its declarations, and all of
their types are found under their names. -/
theorem objectFields?_entity {name : String} {slot : Nat} {e : Slot}
    (hObject : s.registry.objects.get? name = some slot)
    (hSlot : s.registry.slots[slot]? = some e) :
    schema.objectFields? name = some (plainFields
      ((Schema.surviving (declarations e.model)).mapValues (Declaration.typeIn s.registry))) ∧
    ∀ f ∈ (Schema.surviving (declarations e.model)).mapValues (Declaration.typeIn s.registry),
      f.2.key ∈ schema.types.map (·.1) := by
  have hFields := hFresh.slotFields_eq hSlot
  have hKey : ⟨.entity slot, name⟩ ∈ schema.types.map (·.1) :=
    h.complete.object_mem (hFresh.grounded.objectKeys_mem.mpr ⟨slot, hObject, rfl⟩)
  have hName : e.model.name = name := by
    obtain ⟨e', hSlot', hName⟩ := hFresh.supplied.coherent.object hObject
    obtain rfl := Option.some.inj (hSlot.symm.trans hSlot')
    exact hName
  refine ⟨?_, fun f hf => ?_⟩
  · have hFind := h.find?_eq hKey (definition_entity_eq_ok.mpr ⟨_, hFields, rfl⟩)
    rw [objectFields?, hFind]
  · subst hName
    exact hFresh.mem_of_link h.complete hKey (.field hSlot hFields hf)

end

end Makes

end Sources

end EntityGraph.Schema
