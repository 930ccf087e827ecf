import EntityGraph.Proofs.Schema.Collection
import EntityGraph.Proofs.Schema.RootField

/-!
# What type graphs hold

All types of a schema come from its registry and its root fields, and only a bounded number of them
refers to others.  So the collection of types is never cut short, and the types of a schema are
exactly those that can be reached from the registered object types, the roots and the standard
types.

* `Sources.Known`: the types that can occur at all;
* `Sources.Grounded`: sources that were found in a coherent registry;
* `Sources.Link`: the references between them;
* `Grounded.link`, `Grounded.link_known`: known types refer to known ones in these ways only;
* `Grounded.types_spec`, `Grounded.types_ok`: the types of a schema.
-/

namespace EntityGraph.Schema

open Outcome

/-! ## Shapes -/

theorem mem_genericFields {args : Table TypeExpr} {f : String × TypeExpr}
    (h : f ∈ genericFields args) : f ∈ args ∨ f.1 = "id" ∧ f.2.key = scalarKey "ID" := by
  unfold genericFields at h
  split at h
  · obtain rfl := List.mem_singleton.mp h
    exact Or.inr ⟨rfl, rfl⟩
  · rcases Table.mem_putAll h with h | h
    · obtain rfl := List.mem_singleton.mp h
      exact Or.inr ⟨rfl, rfl⟩
    · exact Or.inl h

/-- A field of an input type is an argument, the identifier, or a way to sort or page a list. -/
theorem mem_shapeInput {kind : Kind} {args : Table TypeExpr} {f : String × TypeExpr}
    (h : f ∈ shapeInput kind args) :
    f ∈ args ∨ f.1 = "id" ∧ f.2.key = scalarKey "ID" ∨
      kind = .list ∧ (f = ("sort", .named sortKey) ∨ f = ("paginate", .named paginateKey)) := by
  cases kind with
  | view => exact (mem_genericFields h).imp_right Or.inl
  | remove => exact (mem_genericFields h).imp_right Or.inl
  | create => exact Or.inl h
  | update =>
    rcases Table.mem_putAll h with h | h
    · obtain rfl := List.mem_singleton.mp h
      exact Or.inr (Or.inl ⟨rfl, rfl⟩)
    · exact Or.inl h
  | list =>
    rcases Table.mem_putAll h with h | h
    · exact Or.inl h
    · rcases List.mem_cons.mp h with rfl | h
      · exact Or.inr (Or.inr ⟨rfl, Or.inl rfl⟩)
      · obtain rfl := List.mem_singleton.mp h
        exact Or.inr (Or.inr ⟨rfl, Or.inr rfl⟩)

/-- Every argument is a field of the input type. -/
theorem mem_keys_shapeInput {kind : Kind} {args : Table TypeExpr} {name : String}
    (h : name ∈ args.keys) : name ∈ (shapeInput kind args).keys := by
  have hGeneric : name ∈ (genericFields args).keys := by
    unfold genericFields
    split
    · rename_i hEmpty
      rw [List.isEmpty_iff.mp hEmpty] at h
      cases h
    · exact Table.mem_keys_putAll.mpr (Or.inr h)
  cases kind with
  | view => exact hGeneric
  | remove => exact hGeneric
  | create => exact h
  | update => exact Table.mem_keys_putAll.mpr (Or.inr h)
  | list => exact Table.mem_keys_putAll.mpr (Or.inl h)

/-- Every list can be sorted and paged. -/
theorem mem_shapeInput_list (args : Table TypeExpr) :
    ("sort", .named sortKey) ∈ shapeInput .list args ∧
      ("paginate", .named paginateKey) ∈ shapeInput .list args := by
  constructor
  · refine Table.mem_of_get? ?_
    simp only [shapeInput, Table.putAll_cons, Table.putAll_nil, Table.get?_put]
    simp
  · refine Table.mem_of_get? ?_
    simp only [shapeInput, Table.putAll_cons, Table.putAll_nil, Table.get?_put]
    simp

theorem mem_resultFields {paged : Bool} {entity : TypeKey} {f : String × TypeExpr}
    (h : f ∈ resultFields paged entity) : f.2.key = entity ∨ f.2.key = scalarKey "Int" := by
  unfold resultFields at h
  split at h
  · rcases List.mem_cons.mp h with rfl | h
    · exact Or.inl rfl
    · obtain rfl := List.mem_singleton.mp h
      exact Or.inr rfl
  · obtain rfl := List.mem_singleton.mp h
    exact Or.inl rfl

/-! ## Known types -/

namespace Sources

/-- The types that may occur in a schema. -/
inductive Known (s : Sources) : TypeKey → Prop where
  | scalar {name : String} (h : name ∈ s.registry.scalars ∨ name ∈ builtinScalars) :
      Known s (scalarKey name)
  | entity {slot : Nat} {e : Slot} (h : s.registry.slots[slot]? = some e) :
      Known s ⟨.entity slot, e.model.name⟩
  | sort : Known s sortKey
  | paginate : Known s paginateKey
  | root (r : Root) : Known s (rootKey r)
  | input {r : Root} {f : String × OperationTypes} (h : f ∈ s.fieldsOf r) : Known s f.2.inputKey
  | result {r : Root} {f : String × OperationTypes} (h : f ∈ s.fieldsOf r) : Known s f.2.resultKey
  | introspection {name : String} (h : name ∈ introspectionTypes) :
      Known s ⟨.introspection, name⟩

/-- The known types that refer to others. -/
def inner (s : Sources) : List TypeKey :=
  s.registry.slots.mapIdx (fun slot e => ⟨.entity slot, e.model.name⟩) ++
    [rootKey .query, rootKey .mutation, sortKey, paginateKey] ++
    (s.query ++ s.mutation).flatMap fun f => [f.2.inputKey, f.2.resultKey]

theorem inner_length_lt (s : Sources) : s.inner.length < s.depth := by
  simp only [inner, depth, List.length_append, List.length_mapIdx, List.length_cons,
    List.length_nil, List.length_flatMap, List.map_const', List.sum_replicate_nat]
  omega

theorem mem_inner_of_field {s : Sources} {r : Root} {f : String × OperationTypes}
    (h : f ∈ s.fieldsOf r) : f.2.inputKey ∈ s.inner ∧ f.2.resultKey ∈ s.inner := by
  have hField : f ∈ s.query ++ s.mutation := by
    cases r with
    | query => exact List.mem_append_left _ h
    | mutation => exact List.mem_append_right _ h
  constructor <;>
    exact List.mem_append_right _ (List.mem_flatMap.mpr ⟨f, hField, by simp⟩)

theorem mem_inner_of_slot {s : Sources} {slot : Nat} {e : Slot}
    (h : s.registry.slots[slot]? = some e) : ⟨.entity slot, e.model.name⟩ ∈ s.inner := by
  refine List.mem_append_left _ (List.mem_append_left _ (List.mem_iff_getElem?.mpr ⟨slot, ?_⟩))
  rw [List.getElem?_mapIdx, h]
  rfl

/-! ## References by definition -/

theorem refers_sort {s : Sources} {b : TypeKey} :
    Refers s.definition sortKey b ↔ b = scalarKey "String" := by
  have hDefinition : s.definition sortKey =
      .ok (.input [⟨"column", scalarType "String", none⟩]) := rfl
  simp [Refers, hDefinition, TypeDef.references, scalarType, TypeExpr.key]

theorem refers_paginate {s : Sources} {b : TypeKey} :
    Refers s.definition paginateKey b ↔ b = scalarKey "Int" := by
  have hDefinition : s.definition paginateKey =
      .ok (.input [⟨"skip", scalarType "Int", some defaultSkip⟩,
        ⟨"take", scalarType "Int", some defaultTake⟩]) := rfl
  simp [Refers, hDefinition, TypeDef.references, scalarType, TypeExpr.key]

theorem mem_references_plain {fields : Table TypeExpr} {b : TypeKey} :
    b ∈ (TypeDef.object (plainFields fields)).references ↔ ∃ f ∈ fields, f.2.key = b := by
  simp [TypeDef.references, plainFields, List.mem_flatMap, eq_comm]

/-- A field of a root as its object type has it. -/
def rootField (f : String × OperationTypes) : ObjectField :=
  ⟨f.1, f.2.fieldType, [("input", f.2.argumentType)]⟩

theorem definition_entity_eq_ok {s : Sources} {slot : Nat} {name : String} {d : TypeDef} :
    s.definition ⟨.entity slot, name⟩ = .ok d ↔
      ∃ fields, s.slotFields slot = .ok fields ∧ d = .object (plainFields fields) := by
  refine bind_eq_ok.trans (exists_congr fun fields => and_congr_right fun _ => ?_)
  rw [pure_eq_ok]
  exact eq_comm

theorem definition_root_eq_ok {s : Sources} {r : Root} {d : TypeDef} :
    s.definition (rootKey r) = .ok d ↔ (∀ k ∈ (s.fieldsOf r).keys, checkName k = .ok ()) ∧
      d = .object ((s.fieldsOf r).map rootField) := by
  have hDefinition : s.definition (rootKey r) = (do
      let fields ← checkFieldNames (s.fieldsOf r)
      return .object (fields.map rootField)) := by
    cases r <;> rfl
  rw [hDefinition]
  exact checked_eq_ok

/-- The object type of a slot refers to the types of its fields. -/
theorem refers_entity {s : Sources} {slot : Nat} {name : String} {b : TypeKey} :
    Refers s.definition ⟨.entity slot, name⟩ b ↔
      ∃ fields, s.slotFields slot = .ok fields ∧ ∃ f ∈ fields, f.2.key = b := by
  constructor
  · rintro ⟨d, hDef, hb⟩
    obtain ⟨fields, hFields, rfl⟩ := definition_entity_eq_ok.mp hDef
    exact ⟨fields, hFields, mem_references_plain.mp hb⟩
  · rintro ⟨fields, hFields, hb⟩
    exact ⟨_, definition_entity_eq_ok.mpr ⟨fields, hFields, rfl⟩, mem_references_plain.mpr hb⟩

/-- A root refers to both types of each of its fields. -/
theorem refers_root {s : Sources} {r : Root} {b : TypeKey} :
    Refers s.definition (rootKey r) b ↔ (∀ k ∈ (s.fieldsOf r).keys, checkName k = .ok ()) ∧
      ∃ f ∈ s.fieldsOf r, b = f.2.resultKey ∨ b = f.2.inputKey := by
  have hMem : b ∈ (TypeDef.object ((s.fieldsOf r).map rootField)).references ↔
      ∃ f ∈ s.fieldsOf r, b = f.2.resultKey ∨ b = f.2.inputKey := by
    simp [TypeDef.references, List.mem_flatMap, rootField, OperationTypes.fieldType,
      OperationTypes.argumentType, TypeExpr.key, eq_comm]
  constructor
  · rintro ⟨d, hDef, hb⟩
    obtain ⟨hNames, rfl⟩ := definition_root_eq_ok.mp hDef
    exact ⟨hNames, hMem.mp hb⟩
  · rintro ⟨hNames, hb⟩
    exact ⟨_, definition_root_eq_ok.mpr ⟨hNames, rfl⟩, hMem.mpr hb⟩

/-- The references between the types of a schema. -/
inductive Link (s : Sources) : TypeKey → TypeKey → Prop where
  | field {slot : Nat} {e : Slot} {fields : Table TypeExpr} {f : String × TypeExpr}
      (hSlot : s.registry.slots[slot]? = some e) (hFields : s.slotFields slot = .ok fields)
      (hf : f ∈ fields) : Link s ⟨.entity slot, e.model.name⟩ f.2.key
  | column : Link s sortKey (scalarKey "String")
  | amount : Link s paginateKey (scalarKey "Int")
  | input {r : Root} {f : String × OperationTypes} (hf : f ∈ s.fieldsOf r) :
      Link s (rootKey r) f.2.inputKey
  | result {r : Root} {f : String × OperationTypes} (hf : f ∈ s.fieldsOf r) :
      Link s (rootKey r) f.2.resultKey
  | argument {r : Root} {f : String × OperationTypes} {g : String × TypeExpr}
      (hf : f ∈ s.fieldsOf r) (hg : g ∈ f.2.input) : Link s f.2.inputKey g.2.key
  | entry {r : Root} {f : String × OperationTypes} {g : String × TypeExpr}
      (hf : f ∈ s.fieldsOf r) (hg : g ∈ f.2.result) : Link s f.2.resultKey g.2.key

theorem Link.inner {s : Sources} {a b : TypeKey} (h : s.Link a b) : a ∈ s.inner := by
  cases h with
  | field hSlot => exact mem_inner_of_slot hSlot
  | column => simp [Sources.inner]
  | amount => simp [Sources.inner]
  | @input r => cases r <;> simp [Sources.inner]
  | @result r => cases r <;> simp [Sources.inner]
  | argument hf => exact (mem_inner_of_field hf).1
  | entry hf => exact (mem_inner_of_field hf).2

/-- The types that the collection of a schema's types starts from. -/
def starts (s : Sources) : List TypeKey :=
  s.objectKeys ++ rootKey .query :: rootKey .mutation :: standardKeys

/-- Different types that have definitions, closed under references. -/
structure Complete (s : Sources) (keys : List TypeKey) : Prop where
  nodup : keys.Nodup
  starts : s.starts ⊆ keys
  known : ∀ k ∈ keys, s.Known k
  defined : ∀ k ∈ keys, ∃ d, s.definition k = .ok d
  closed : ∀ a ∈ keys, ∀ b, Refers s.definition a b → b ∈ keys

theorem Complete.object_mem {s : Sources} {keys : List TypeKey} (h : s.Complete keys)
    {k : TypeKey} (hk : k ∈ s.objectKeys) : k ∈ keys :=
  h.starts (List.mem_append_left _ hk)

theorem Complete.root_mem {s : Sources} {keys : List TypeKey} (h : s.Complete keys) (r : Root) :
    rootKey r ∈ keys := by
  apply h.starts
  apply List.mem_append_right
  cases r <;> simp

/-- Sources found in a coherent registry. -/
structure Grounded (s : Sources) : Prop where
  coherent : s.registry.Coherent
  references : checkReferences s.registry = .ok ()
  fields : ∀ r, (RootFields.ofRoot s.registry r).value = .ok (s.fieldsOf r)

theorem grounded {r : Registry} {s : Sources} (hCoherent : r.Coherent)
    (h : (sources r).value = .ok s) : s.registry = r ∧ s.Grounded := by
  obtain ⟨hReferences, rfl, hQuery, hMutation⟩ := sources_eq_ok.mp h
  refine ⟨rfl, hCoherent, hReferences, fun root => ?_⟩
  cases root with
  | query => exact hQuery
  | mutation => exact hMutation

/-- The type that an earlier registry gives a name is known. -/
theorem known_of_find? {s : Sources} {old : Registry} (hOld : old.Precedes s.registry)
    {name : String} {key : TypeKey} (h : old.find? name = some key) : s.Known key := by
  rcases Registry.find?_eq_some.mp h with ⟨hScalar, rfl⟩ | ⟨-, slot, hObject, rfl⟩
  · exact .scalar (Or.inl (hOld.scalars ▸ hScalar))
  · obtain ⟨e, hSlot, rfl⟩ := hOld.object hObject
    exact .entity hSlot

/-- The types of resolved fields are types by name. -/
theorem find?_of_resolved {r : Registry} {ds : List Declaration}
    (hHas : ∀ d ∈ ds, r.has d.type = true) {f : String × TypeExpr}
    (h : f ∈ (surviving ds).mapValues (Declaration.typeIn r)) :
    ∃ d ∈ ds, f.1 = d.name ∧ r.find? d.type = some f.2.key := by
  obtain ⟨d, hd, hName, hType⟩ := mem_resolved h
  exact ⟨d, hd, hName, hType ▸ Registry.typeIn_key (hHas d hd)⟩

namespace Grounded

variable {s : Sources}

/-- The fields of an object type as they were resolved, now or when they were kept. -/
theorem slotFields_eq_ok (h : s.Grounded) {slot : Nat} {e : Slot}
    (hSlot : s.registry.slots[slot]? = some e) {fields : Table TypeExpr}
    (hFields : s.slotFields slot = .ok fields) :
    ∃ old : Registry, old.Precedes s.registry ∧ modelFields old e.model = .ok fields ∧
      (e.fields = none → old = s.registry) := by
  obtain ⟨model, kept⟩ := e
  unfold slotFields at hFields
  rw [hSlot] at hFields
  cases kept with
  | some found =>
    obtain rfl := Except.ok.inj hFields
    obtain ⟨old, hOld, hFound, -⟩ := h.coherent.kept _ (List.mem_of_getElem? hSlot) _ rfl
    exact ⟨old, hOld, hFound, nofun⟩
  | none =>
    obtain ⟨found, hFound, hCheck⟩ := bind_eq_ok.mp hFields
    obtain ⟨rfl, -⟩ := checkFieldNames_eq_ok.mp hCheck
    exact ⟨s.registry, h.coherent.precedes, hFound, fun _ => rfl⟩

/-- A root field by name. -/
theorem get?_fieldsOf (h : s.Grounded) {r : Root} {f : String × OperationTypes}
    (hf : f ∈ s.fieldsOf r) : f.2.kind.root = r ∧ (s.fieldsOf r).get? f.2.field = some f.2 := by
  obtain ⟨hName, hRoot, -⟩ := RootFields.ofRoot_mem (h.fields r) hf
  refine ⟨hRoot, (Table.get?_eq_some_iff (RootFields.ofRoot_nodup (h.fields r))).mpr ?_⟩
  exact hName ▸ hf

theorem definition_input_eq_ok (h : s.Grounded) {r : Root} {f : String × OperationTypes}
    (hf : f ∈ s.fieldsOf r) {d : TypeDef} :
    s.definition f.2.inputKey = .ok d ↔ (∀ k ∈ f.2.input.keys, checkName k = .ok ()) ∧
      d = .input (f.2.input.map fun g => ⟨g.1, g.2, none⟩) := by
  obtain ⟨rfl, hGet⟩ := h.get?_fieldsOf hf
  simp only [definition, OperationTypes.inputKey, hGet]
  exact checked_eq_ok

theorem definition_result (h : s.Grounded) {r : Root} {f : String × OperationTypes}
    (hf : f ∈ s.fieldsOf r) :
    s.definition f.2.resultKey = .ok (.object (plainFields f.2.result)) := by
  obtain ⟨rfl, hGet⟩ := h.get?_fieldsOf hf
  simp only [definition, OperationTypes.resultKey, hGet]

/-- An input type refers to the types of its fields. -/
theorem refers_input (h : s.Grounded) {r : Root} {f : String × OperationTypes}
    (hf : f ∈ s.fieldsOf r) {b : TypeKey} :
    Refers s.definition f.2.inputKey b ↔
      (∀ k ∈ f.2.input.keys, checkName k = .ok ()) ∧ ∃ g ∈ f.2.input, g.2.key = b := by
  constructor
  · rintro ⟨d, hDef, hb⟩
    obtain ⟨hNames, rfl⟩ := (h.definition_input_eq_ok hf).mp hDef
    exact ⟨hNames, by simpa [TypeDef.references] using hb⟩
  · rintro ⟨hNames, hb⟩
    refine ⟨_, (h.definition_input_eq_ok hf).mpr ⟨hNames, rfl⟩, ?_⟩
    simpa [TypeDef.references] using hb

/-- A result type refers to the types of its fields. -/
theorem refers_result (h : s.Grounded) {r : Root} {f : String × OperationTypes}
    (hf : f ∈ s.fieldsOf r) {b : TypeKey} :
    Refers s.definition f.2.resultKey b ↔ ∃ g ∈ f.2.result, g.2.key = b := by
  unfold Refers
  rw [h.definition_result hf]
  simp only [Except.ok.injEq, exists_eq_left']
  exact mem_references_plain

/-- The types that the types of a root field refer to. -/
theorem operationTypes_keys (h : s.Grounded) {r : Root} {f : String × OperationTypes}
    (hf : f ∈ s.fieldsOf r) :
    (∃ slot, s.registry.objects.get? f.2.model = some slot ∧
      ∀ g ∈ f.2.result, g.2.key = ⟨.entity slot, f.2.model⟩ ∨ g.2.key = scalarKey "Int") ∧
    ∀ g ∈ f.2.input, (∃ name, s.registry.find? name = some g.2.key) ∨
      g.2.key = scalarKey "ID" ∨
      (f.2.kind = .list ∧ (g.2.key = sortKey ∨ g.2.key = paginateKey)) := by
  obtain ⟨-, -, m, -, o, -, hMake⟩ := RootFields.ofRoot_mem (h.fields r) hf
  obtain ⟨kind, slot, args, -, hSlot, hArgs, hTypes⟩ := OperationTypes.make_eq_ok.mp hMake
  rw [hTypes]
  refine ⟨⟨slot, hSlot, fun g hg => mem_resultFields hg⟩, fun g hg => ?_⟩
  rcases mem_shapeInput hg with hArg | ⟨-, hID⟩ | ⟨hList, rfl | rfl⟩
  · obtain ⟨hHas, rfl⟩ := argumentFields_eq_ok.mp hArgs
    obtain ⟨d, -, -, hFind⟩ := find?_of_resolved (by simpa [Declaration.ofArgument] using hHas) hArg
    exact Or.inl ⟨d.type, hFind⟩
  · exact Or.inr (Or.inl hID)
  · exact Or.inr (Or.inr ⟨hList, Or.inl rfl⟩)
  · exact Or.inr (Or.inr ⟨hList, Or.inr rfl⟩)

/-! ## References -/

/-- Every reference of a known type is one of the seven. -/
theorem link (h : s.Grounded) {a b : TypeKey} (ha : s.Known a)
    (hRefers : Refers s.definition a b) : s.Link a b := by
  cases ha with
  | scalar =>
    obtain ⟨d, hDef, hb⟩ := hRefers
    obtain rfl := Except.ok.inj hDef
    simp [TypeDef.references] at hb
  | introspection =>
    obtain ⟨d, hDef, hb⟩ := hRefers
    obtain rfl := Except.ok.inj hDef
    simp [TypeDef.references] at hb
  | entity hSlot =>
    obtain ⟨fields, hFields, f, hf, rfl⟩ := refers_entity.mp hRefers
    exact .field hSlot hFields hf
  | sort => exact refers_sort.mp hRefers ▸ .column
  | paginate => exact refers_paginate.mp hRefers ▸ .amount
  | root r =>
    obtain ⟨-, f, hf, rfl | rfl⟩ := refers_root.mp hRefers
    · exact .result hf
    · exact .input hf
  | input hf =>
    obtain ⟨-, g, hg, rfl⟩ := (h.refers_input hf).mp hRefers
    exact .argument hf hg
  | result hf =>
    obtain ⟨g, hg, rfl⟩ := (h.refers_result hf).mp hRefers
    exact .entry hf hg

theorem link_known (h : s.Grounded) {a b : TypeKey} (hLink : s.Link a b) : s.Known b := by
  cases hLink with
  | field hSlot hFields hf =>
    obtain ⟨old, hOld, hModel, -⟩ := h.slotFields_eq_ok hSlot hFields
    obtain ⟨hHas, rfl⟩ := modelFields_eq_ok.mp hModel
    obtain ⟨d, -, -, hFind⟩ := find?_of_resolved hHas hf
    exact known_of_find? hOld hFind
  | column => exact .scalar (Or.inr (by decide))
  | amount => exact .scalar (Or.inr (by decide))
  | input hf => exact .input hf
  | result hf => exact .result hf
  | argument hf hg =>
    rcases (h.operationTypes_keys hf).2 _ hg with ⟨name, hFind⟩ | hID | ⟨-, hSort | hPage⟩
    · exact known_of_find? h.coherent.precedes hFind
    · exact hID ▸ .scalar (Or.inr (by decide))
    · exact hSort ▸ .sort
    · exact hPage ▸ .paginate
  | entry hf hg =>
    obtain ⟨slot, hSlot, hKeys⟩ := (h.operationTypes_keys hf).1
    rcases hKeys _ hg with hEntity | hInt
    · obtain ⟨e, hEntry, hName⟩ := h.coherent.object hSlot
      exact hEntity ▸ hName ▸ .entity hEntry
    · exact hInt ▸ .scalar (Or.inr (by decide))

theorem bounded (h : s.Grounded) : Bounded s.definition s.inner s.Known where
  closed := fun ha hb => h.link_known (h.link ha hb)
  inner := fun ha hb => (h.link ha hb).inner

/-! ## The types of a schema -/

theorem objectKeys_mem (h : s.Grounded) {k : TypeKey} :
    k ∈ s.objectKeys ↔
      ∃ slot, s.registry.objects.get? k.name = some slot ∧ k.origin = .entity slot := by
  simp only [objectKeys, List.mem_map]
  constructor
  · rintro ⟨o, ho, rfl⟩
    exact ⟨o.2, (Table.get?_eq_some_iff h.coherent.nodup).mpr ho, rfl⟩
  · rintro ⟨slot, hSlot, hOrigin⟩
    exact ⟨(k.name, slot), Table.mem_of_get? hSlot, by rw [← hOrigin]⟩

theorem starts_known (h : s.Grounded) : ∀ k ∈ s.starts, s.Known k := by
  intro k hk
  rcases List.mem_append.mp hk with hk | hk
  · obtain ⟨origin, name⟩ := k
    obtain ⟨slot, hSlot, rfl⟩ := h.objectKeys_mem.mp hk
    obtain ⟨e, hEntry, rfl⟩ := h.coherent.object hSlot
    exact .entity hEntry
  · simp only [standardKeys, List.mem_cons, List.mem_append, List.mem_map] at hk
    rcases hk with rfl | rfl | ⟨name, hName, rfl⟩ | ⟨name, hName, rfl⟩
    · exact .root .query
    · exact .root .mutation
    · refine .scalar (Or.inr ?_)
      rcases hName with rfl | rfl | hName
      · decide
      · decide
      · cases hName
    · exact .introspection hName

/-- The types of a schema, with any property that the types it starts from have and that references
preserve. -/
theorem types_spec (h : s.Grounded) {P : TypeKey → Prop}
    (hClosed : ∀ a b, s.Known a → P a → Refers s.definition a b → P b)
    (hStarts : ∀ k ∈ s.starts, P k) {keys : List TypeKey} (hTypes : s.types = .ok keys) :
    s.Complete keys ∧ ∀ k ∈ keys, P k := by
  have hBounded : Bounded s.definition s.inner fun k => s.Known k ∧ P k :=
    ⟨fun ha hb => ⟨h.bounded.closed ha.1 hb, hClosed _ _ ha.1 ha.2 hb⟩,
      fun ha hb => h.bounded.inner ha.1 hb⟩
  have hKnown : ∀ k ∈ s.starts, s.Known k ∧ P k := fun k hk => ⟨h.starts_known k hk, hStarts k hk⟩
  obtain ⟨middle, hObjects, hRest⟩ := bind_eq_ok.mp hTypes
  obtain ⟨hFirst, hFirstAll⟩ := collectAll_extends hBounded s.inner_length_lt s.objectKeys [] middle
    (fun k hk => hKnown k (List.mem_append_left _ hk)) hObjects
  -- when the roots are visited no entity waits any more, so nothing is left out
  have hVisit : ∀ seen, ([] : List TypeKey) ⊆ seen →
      ∀ k ∈ rootKey .query :: rootKey .mutation :: standardKeys, ∀ seen',
      collect s.definition [] s.depth seen k = .ok seen' →
      Extends s.definition (fun k => s.Known k ∧ P k) [] seen seen' ∧
        (k ∈ seen' ∨ k ∈ ([] : List TypeKey)) := by
    intro seen _ k hk seen' hCollect
    refine collect_extends hBounded [] s.depth seen k seen'
      (hKnown k (List.mem_append_right _ hk)) ?_ hCollect
    exact Nat.lt_of_le_of_lt (List.length_filter_le _ _) s.inner_length_lt
  obtain ⟨hLast, hLastAll⟩ := foldlM_extends _ hVisit middle keys (List.nil_subset _) hRest
  have hAll := hFirst.trans hLast
  refine ⟨⟨hAll.nodup List.nodup_nil, ?_, ?_, ?_, ?_⟩, ?_⟩
  · intro k hk
    rcases List.mem_append.mp hk with hk | hk
    · exact hLast.subset (hFirstAll k hk)
    · exact (hLastAll k hk).resolve_right (List.not_mem_nil)
  · exact fun k hk => (hAll.known k hk List.not_mem_nil).1
  · exact fun k hk => hAll.defined k hk List.not_mem_nil
  · exact fun a ha b hb => (hAll.closed a ha List.not_mem_nil b hb).resolve_right List.not_mem_nil
  · exact fun k hk => (hAll.known k hk List.not_mem_nil).2

/-- The types of a schema exist if every known type has a definition. -/
theorem types_ok (h : s.Grounded) (hDefined : ∀ k, s.Known k → ∃ d, s.definition k = .ok d) :
    ∃ keys, s.types = .ok keys := by
  have hClosed : ∀ a b, s.Known a → Refers s.definition a b → s.Known b :=
    fun a b ha hb => h.bounded.closed ha hb
  obtain ⟨middle, hObjects⟩ := collectAll_ok hClosed hDefined s.depth s.objectKeys
    (fun k hk => h.starts_known k (List.mem_append_left _ hk)) []
  obtain ⟨keys, hRest⟩ := foldlM_ok (fun seen k hk => collect_ok hClosed hDefined [] s.depth seen k
    (h.starts_known k (List.mem_append_right _ hk))) middle
  exact ⟨keys, bind_eq_ok.mpr ⟨middle, hObjects, hRest⟩⟩

end Grounded

end Sources

/-! ## Schemas -/

theorem firstRepeated_eq_none {seen names : List String} :
    firstRepeated seen names = none ↔ names.Nodup ∧ ∀ n ∈ names, n ∉ seen := by
  induction names generalizing seen with
  | nil => simp [firstRepeated]
  | cons name rest ih =>
    rw [firstRepeated, List.nodup_cons, List.forall_mem_cons]
    split
    · rename_i hSeen
      simp only [List.contains_iff_mem] at hSeen
      simp [hSeen]
    · rename_i hSeen
      simp only [List.contains_iff_mem] at hSeen
      rw [ih]
      constructor
      · rintro ⟨hNodup, hFresh⟩
        have hName : name ∉ rest := fun hMem => hFresh name hMem List.mem_cons_self
        exact ⟨⟨hName, hNodup⟩, hSeen, fun n hn hMem => hFresh n hn (List.mem_cons_of_mem _ hMem)⟩
      · rintro ⟨⟨hName, hNodup⟩, -, hFresh⟩
        refine ⟨hNodup, fun n hn hMem => ?_⟩
        rcases List.mem_cons.mp hMem with rfl | hMem
        · exact hName hn
        · exact hFresh n hn hMem

namespace Sources

/-- Types under repeated names make no schema. -/
theorem schemaOf_repeated {s : Sources} {keys : List TypeKey} (h : ¬ (keys.map (·.name)).Nodup) :
    ∃ name, s.schemaOf keys = .error (.duplicateType name) := by
  unfold schemaOf
  cases hRepeated : firstRepeated [] (keys.map (·.name)) with
  | some name => exact ⟨name, rfl⟩
  | none => exact absurd (firstRepeated_eq_none.mp hRepeated).1 h

/-- Types under distinct names make a schema of their definitions. -/
theorem schemaOf_eq_ok {s : Sources} {keys : List TypeKey} {schema : Schema} :
    s.schemaOf keys = .ok schema ↔ (keys.map (·.name)).Nodup ∧
      List.Forall₂ (fun key e => e.1 = key ∧ s.definition key = .ok e.2) keys schema.types := by
  by_cases hNodup : (keys.map (·.name)).Nodup
  · have hNone : firstRepeated [] (keys.map (·.name)) = none :=
      firstRepeated_eq_none.mpr ⟨hNodup, by simp⟩
    have hEntry : ∀ (key : TypeKey) (e : TypeKey × TypeDef),
        (do return (key, ← s.definition key) : Except Failure (TypeKey × TypeDef)) = .ok e ↔
          e.1 = key ∧ s.definition key = .ok e.2 := by
      rintro key ⟨k, d⟩
      rw [bind_eq_ok]
      constructor
      · rintro ⟨d', hDef, hEq⟩
        obtain ⟨rfl, rfl⟩ := Prod.mk.inj (pure_eq_ok.mp hEq)
        exact ⟨rfl, hDef⟩
      · rintro ⟨rfl, hDef⟩
        exact ⟨d, hDef, rfl⟩
    unfold schemaOf
    rw [hNone]
    simp only [hNodup, true_and]
    rw [bind_eq_ok]
    obtain ⟨types⟩ := schema
    constructor
    · rintro ⟨types', hTypes, hEq⟩
      obtain rfl := Schema.mk.inj (pure_eq_ok.mp hEq)
      exact (mapM_eq_ok.mp hTypes).imp fun key e he => (hEntry key e).mp he
    · intro hTypes
      exact ⟨types, mapM_eq_ok.mpr (hTypes.imp fun key e he => (hEntry key e).mpr he), rfl⟩
  · obtain ⟨name, hError⟩ := schemaOf_repeated (s := s) hNodup
    simp [hNodup, hError]

theorem schemaOf_ok {s : Sources} {keys : List TypeKey} (hNodup : (keys.map (·.name)).Nodup)
    (hDefined : ∀ k ∈ keys, ∃ d, s.definition k = .ok d) :
    ∃ schema, s.schemaOf keys = .ok schema := by
  have hEntries : ∀ k ∈ keys, ∃ e, (fun k => (s.definition k).map fun d => (k, d)) k = .ok e := by
    intro k hk
    obtain ⟨d, hDef⟩ := hDefined k hk
    exact ⟨(k, d), map_eq_ok.mpr ⟨d, hDef, rfl⟩⟩
  obtain ⟨types, hTypes⟩ := mapM_ok hEntries
  refine ⟨⟨types⟩, schemaOf_eq_ok.mpr ⟨hNodup, (mapM_eq_ok.mp hTypes).imp fun k e he => ?_⟩⟩
  obtain ⟨d, hDef, rfl⟩ := map_eq_ok.mp he
  exact ⟨rfl, hDef⟩

end Sources

theorem build_value (r : Registry) : (build r).value =
    match (sources r).value with
    | .error failure => (r, .error failure)
    | .ok s => s.build := by
  unfold build
  cases hSources : (sources r).value with
  | error failure => simp [hSources]
  | ok s =>
    simp only [Logged.value_bind, hSources]
    obtain ⟨kept, outcome⟩ := s.build
    cases outcome <;> rfl

end EntityGraph.Schema
