import EntityGraph.Proofs.Schema.Outdated
import EntityGraph.Proofs.Schema.WellFormed

/-!
# Names that a schema claims

The types of a schema need distinct names.  Which names they claim can be read off the registry and
the root fields: the names of the registered object types, those of the roots, two for every root
field, those for sorting and paging if there is a list, and that of the scalar for times if it is
used.  The other types are scalars and types of introspection, whose names nothing else can have.

* `Sources.claimedKeys`, `Sources.claimedNames`: the types in question and their names;
* `Fresh.mem_types`: a schema holds these types and reserved ones only;
* `Fresh.names_nodup_iff`: only the claimed names can collide.
-/

namespace EntityGraph.Schema

open Outcome

/-- The place of an origin among the parts of a schema. -/
def Origin.rank : Origin → Nat
  | .entity _ => 0
  | .root => 1
  | .input .. | .result .. => 2
  | .helper => 3
  | .scalar => 4
  | .introspection => 5

namespace Sources

/-- The operations that root fields run. -/
def surviving (s : Sources) : List OperationTypes := (s.query ++ s.mutation).map (·.2)

/-- The fields of the registered object types. -/
def registeredFields (r : Registry) : List (String × TypeExpr) :=
  r.objects.flatMap fun o =>
    match r.slots[o.2]? with
    | some e => ((modelFields r e.model).toOption).getD []
    | none => []

/-- A list is among the root fields. -/
def hasList (s : Sources) : Bool := s.surviving.any fun t => t.kind = .list

/-- The scalar for times is the type of a field or of an argument. -/
def hasTime (s : Sources) : Bool :=
  (registeredFields s.registry ++ s.surviving.flatMap (·.input)).any fun f =>
    f.2.key = scalarKey "DateTime"

/-- The types whose names can collide. -/
def claimedKeys (s : Sources) : List TypeKey :=
  s.objectKeys ++ [rootKey .query, rootKey .mutation] ++
    s.surviving.flatMap (fun t => [t.inputKey, t.resultKey]) ++
    (if s.hasList then [sortKey, paginateKey] else []) ++
    (if s.hasTime then [scalarKey "DateTime"] else [])

/-- The names that can collide. -/
def claimedNames (s : Sources) : List String :=
  s.registry.objects.keys ++ ["Query", "Mutation"] ++
    s.surviving.flatMap
      (fun t => [Naming.inputType t.model t.kind, Naming.resultType t.model t.kind]) ++
    (if s.hasList then ["Sort", "Paginate"] else []) ++
    (if s.hasTime then ["DateTime"] else [])

/-- The claimed names of types that do not come from definitions. -/
def standingNames (s : Sources) : List String :=
  ["Query", "Mutation"] ++ (if s.hasList then ["Sort", "Paginate"] else []) ++
    (if s.hasTime then ["DateTime"] else [])

/-- The names of the input and result types. -/
def operationNames (s : Sources) : List String :=
  s.surviving.flatMap
    fun t => [Naming.inputType t.model t.kind, Naming.resultType t.model t.kind]

theorem claimedNames_perm (s : Sources) :
    s.claimedNames.Perm (s.registry.objects.keys ++ (s.operationNames ++ s.standingNames)) := by
  refine List.perm_iff_count.mpr fun name => ?_
  simp only [claimedNames, operationNames, standingNames, List.count_append]
  omega

theorem standingNames_sublist (s : Sources) :
    s.standingNames.Sublist ["Query", "Mutation", "Sort", "Paginate", "DateTime"] := by
  unfold standingNames
  split <;> split <;> decide

theorem map_claimedKeys (s : Sources) : s.claimedKeys.map (·.name) = s.claimedNames := by
  have hObjects : s.objectKeys.map (·.name) = s.registry.objects.keys := by
    simp [objectKeys, Table.keys]
  have hOperations : (s.surviving.flatMap fun t => [t.inputKey, t.resultKey]).map (·.name) =
      s.surviving.flatMap
        fun t => [Naming.inputType t.model t.kind, Naming.resultType t.model t.kind] := by
    rw [List.map_flatMap]
    rfl
  simp only [claimedKeys, claimedNames, List.map_append, hObjects, hOperations]
  congr 1
  · congr 1
    split <;> rfl
  · split <;> rfl

theorem mem_surviving {s : Sources} {t : OperationTypes} :
    t ∈ s.surviving ↔ ∃ r, ∃ f ∈ s.fieldsOf r, f.2 = t := by
  simp only [surviving, List.map_append, List.mem_append, List.mem_map]
  constructor
  · rintro (⟨f, hf, rfl⟩ | ⟨f, hf, rfl⟩)
    · exact ⟨.query, f, hf, rfl⟩
    · exact ⟨.mutation, f, hf, rfl⟩
  · rintro ⟨r, f, hf, rfl⟩
    cases r with
    | query => exact Or.inl ⟨f, hf, rfl⟩
    | mutation => exact Or.inr ⟨f, hf, rfl⟩

/-- The types whose names nothing else can have. -/
def Reserved (k : TypeKey) : Prop :=
  k.origin = .scalar ∧ k.name ∈ builtinScalars ∨
    k.origin = .introspection ∧ k.name ∈ introspectionTypes

theorem Reserved.eq {a b : TypeKey} (ha : Reserved a) (hb : Reserved b) (h : a.name = b.name) :
    a = b := by
  have hDisjoint : ∀ name ∈ builtinScalars, name ∉ introspectionTypes := by decide +kernel
  obtain ⟨origin, name⟩ := a
  obtain ⟨origin', name'⟩ := b
  obtain rfl : name = name' := h
  rcases ha with ⟨rfl, ha⟩ | ⟨rfl, ha⟩ <;> rcases hb with ⟨rfl, hb⟩ | ⟨rfl, hb⟩
  · rfl
  · exact absurd hb (hDisjoint name ha)
  · exact absurd ha (hDisjoint name hb)
  · rfl

theorem Reserved.isReservedType {k : TypeKey} (h : Reserved k) : isReservedType k.name = true := by
  rw [Schema.isReservedType, Bool.or_eq_true, List.contains_iff_mem, List.contains_iff_mem]
  exact h.imp And.right And.right

instance (k : TypeKey) : Decidable (Reserved k) := inferInstanceAs (Decidable (_ ∨ _))

/-- Only entities have registered object types. -/
theorem objectKeys_rank {s : Sources} {k : TypeKey} (h : k ∈ s.objectKeys) :
    k.origin.rank = 0 := by
  obtain ⟨o, -, rfl⟩ := List.mem_map.mp h
  rfl

/-- A schema starts from entities, roots and reserved types. -/
theorem mem_starts {s : Sources} {k : TypeKey} (h : k ∈ s.starts) :
    k.origin.rank ≤ 1 ∨ Reserved k := by
  have hStandard : ∀ k ∈ standardKeys, Reserved k := by decide +kernel
  rcases List.mem_append.mp h with h | h
  · have hRank := objectKeys_rank h
    omega
  · rcases List.mem_cons.mp h with rfl | h
    · exact Or.inl (by decide)
    · rcases List.mem_cons.mp h with rfl | h
      · exact Or.inl (by decide)
      · exact Or.inr (hStandard k h)

/-- Sources of a schema for well-formed entities, of which no fields have been kept. -/
structure Fresh (s : Sources) : Prop where
  supplied : s.registry.Supplied
  sources : (Schema.sources s.registry).value = .ok s
  scalars : s.registry.scalars = defaultScalars
  forget : s.registry.forget = s.registry

namespace Fresh

variable {s : Sources}

theorem grounded (h : s.Fresh) : s.Grounded := (Sources.grounded h.supplied.coherent h.sources).2

theorem kept_eq_none (h : s.Fresh) {e : Slot} (he : e ∈ s.registry.slots) : e.fields = none := by
  have hForget := h.forget
  rw [← hForget] at he
  obtain ⟨e', -, rfl⟩ := List.mem_map.mp he
  rfl

theorem not_outdated (h : s.Fresh) : ¬ s.registry.Outdated := by
  rintro ⟨slot, e, fields, -, hSlot, hKept, -⟩
  rw [h.kept_eq_none (List.mem_of_getElem? hSlot)] at hKept
  cases hKept

/-- The fields of an object type are those that its registry gives its entity now. -/
theorem slotFields_eq (h : s.Fresh) {slot : Nat} {e : Slot}
    (hSlot : s.registry.slots[slot]? = some e) : s.slotFields slot = .ok
      ((Schema.surviving (declarations e.model)).mapValues (Declaration.typeIn s.registry)) := by
  have he := List.mem_of_getElem? hSlot
  have hm := h.supplied.coherent.mem_models he
  have hNow := h.supplied.modelFields_ok hm
  rw [slotFields, hSlot]
  simp only [h.kept_eq_none he, hNow]
  exact checkFieldNames_eq_ok.mpr ⟨rfl, checkName_modelFields (h.supplied.wellFormed _ hm) hNow⟩

/-- A field of a registered object type. -/
theorem mem_registeredFields (h : s.Fresh) {f : String × TypeExpr} :
    f ∈ registeredFields s.registry ↔ ∃ name slot e fields,
      s.registry.objects.get? name = some slot ∧ s.registry.slots[slot]? = some e ∧
      s.slotFields slot = .ok fields ∧ f ∈ fields := by
  have hFields : ∀ {slot e}, s.registry.slots[slot]? = some e →
      s.slotFields slot = modelFields s.registry e.model := by
    intro slot e hSlot
    have hm := h.supplied.coherent.mem_models (List.mem_of_getElem? hSlot)
    exact (h.slotFields_eq hSlot).trans (h.supplied.modelFields_ok hm).symm
  simp only [registeredFields, List.mem_flatMap]
  constructor
  · rintro ⟨o, ho, hf⟩
    have hObject := (Table.get?_eq_some_iff h.supplied.coherent.nodup).mpr ho
    obtain ⟨e, hSlot, -⟩ := h.supplied.coherent.object hObject
    have hNow := h.slotFields_eq hSlot
    rw [hSlot] at hf
    simp only [← hFields hSlot, hNow, Except.toOption, Option.getD_some] at hf
    exact ⟨o.1, o.2, e, _, hObject, hSlot, hNow, hf⟩
  · rintro ⟨name, slot, e, fields, hObject, hSlot, hSlotFields, hf⟩
    refine ⟨(name, slot), Table.mem_of_get? hObject, ?_⟩
    rw [hFields hSlot] at hSlotFields
    simpa [hSlot, hSlotFields, Except.toOption] using hf

/-! ## The types of a schema -/

/-- A type for sorting or paging is there for a list. -/
theorem hasList_of_link (h : s.Fresh) {a b : TypeKey} (hLink : s.Link a b)
    (hHelper : b.origin = .helper) : s.hasList = true := by
  cases hLink with
  | field hSlot hFields hf =>
    obtain ⟨old, -, hModel, -⟩ := h.grounded.slotFields_eq_ok hSlot hFields
    obtain ⟨hHas, rfl⟩ := modelFields_eq_ok.mp hModel
    obtain ⟨d, -, -, hFind⟩ := find?_of_resolved hHas hf
    rcases Registry.find?_eq_some.mp hFind with ⟨-, hKey⟩ | ⟨-, slot, -, hKey⟩ <;>
      rw [← hKey] at hHelper <;> cases hHelper
  | column => cases hHelper
  | amount => cases hHelper
  | input => cases hHelper
  | result => cases hHelper
  | @argument r f g hf hg =>
    rcases (h.grounded.operationTypes_keys hf).2 g hg with ⟨name, hFind⟩ | hID | ⟨hKind, -⟩
    · rcases Registry.find?_eq_some.mp hFind with ⟨-, hKey⟩ | ⟨-, slot, -, hKey⟩ <;>
        rw [← hKey] at hHelper <;> cases hHelper
    · rw [hID] at hHelper
      cases hHelper
    · exact List.any_eq_true.mpr ⟨f.2, mem_surviving.mpr ⟨r, f, hf, rfl⟩, decide_eq_true hKind⟩
  | @entry r f g hf hg =>
    obtain ⟨slot, -, hKeys⟩ := (h.grounded.operationTypes_keys hf).1
    rcases hKeys g hg with hKey | hKey <;> rw [hKey] at hHelper <;> cases hHelper

/-- The scalar for times is there for a field or an argument. -/
theorem hasTime_of_link (h : s.Fresh) {a b : TypeKey} (ha : s.Current a) (hLink : s.Link a b)
    (hTime : b = scalarKey "DateTime") : s.hasTime = true := by
  unfold hasTime
  rw [List.any_eq_true]
  cases hLink with
  | @field slot e fields f hSlot hFields hf =>
    obtain ⟨_, hObject, hOrigin⟩ := h.grounded.objectKeys_mem.mp (ha slot rfl)
    obtain rfl := Origin.entity.inj hOrigin
    refine ⟨f, List.mem_append_left _ (h.mem_registeredFields.mpr ?_), decide_eq_true hTime⟩
    exact ⟨_, _, e, fields, hObject, hSlot, hFields, hf⟩
  | column => exact absurd hTime (by decide +kernel)
  | amount => exact absurd hTime (by decide +kernel)
  | input => cases hTime
  | result => cases hTime
  | @argument r f g hf hg =>
    refine ⟨g, List.mem_append_right _ (List.mem_flatMap.mpr ⟨f.2, ?_, hg⟩), decide_eq_true hTime⟩
    exact mem_surviving.mpr ⟨r, f, hf, rfl⟩
  | @entry r f g hf hg =>
    obtain ⟨slot, -, hKeys⟩ := (h.grounded.operationTypes_keys hf).1
    rcases hKeys g hg with hKey | hKey
    · rw [hKey] at hTime
      cases hTime
    · exact absurd (hKey.symm.trans hTime) (by decide +kernel)

/-- A schema holds claimed types and reserved ones only. -/
theorem mem_types (h : s.Fresh) {keys : List TypeKey} (hTypes : s.types = .ok keys) :
    s.Complete keys ∧ ∀ k ∈ keys, k ∈ s.claimedKeys ∨ Reserved k := by
  have hGrounded := h.grounded
  obtain ⟨hComplete, hReached⟩ := hGrounded.types_spec
    (P := fun k => s.Current k ∧ (k ∈ s.starts ∨ ∃ a, s.Current a ∧ s.Link a k))
    (fun a b ha hCurrent hb => ⟨hGrounded.link_current h.not_outdated hCurrent.1
      (hGrounded.link ha hb), Or.inr ⟨a, hCurrent.1, hGrounded.link ha hb⟩⟩)
    (fun k hk => ⟨s.current_starts k hk, Or.inl hk⟩) hTypes
  refine ⟨hComplete, fun k hk => ?_⟩
  obtain ⟨hCurrent, hOrigin⟩ := hReached k hk
  -- a schema starts from no helper and not from the scalar for times: a type refers to them
  have hLinked : ¬ k.origin.rank ≤ 1 → ¬ Reserved k → ∃ a, s.Current a ∧ s.Link a k := by
    intro hRank hReserved
    exact hOrigin.resolve_left fun hStart => (mem_starts hStart).elim hRank hReserved
  simp only [claimedKeys, List.mem_append]
  cases hComplete.known k hk with
  | @scalar name hName =>
    by_cases hTime : name = "DateTime"
    · subst hTime
      obtain ⟨a, ha, hLink⟩ := hLinked (by decide) (by decide +kernel)
      simp [h.hasTime_of_link ha hLink rfl]
    · refine Or.inr (Or.inl ⟨rfl, ?_⟩)
      rw [h.scalars] at hName
      have hDefault : ∀ n ∈ defaultScalars, n ≠ "DateTime" → n ∈ builtinScalars := by
        decide +kernel
      exact hName.elim (fun hScalar => hDefault name hScalar hTime) id
  | entity => exact Or.inl (Or.inl (Or.inl (Or.inl (Or.inl (hCurrent _ rfl)))))
  | sort =>
    obtain ⟨a, -, hLink⟩ := hLinked (by decide) (by decide +kernel)
    simp [h.hasList_of_link hLink rfl]
  | paginate =>
    obtain ⟨a, -, hLink⟩ := hLinked (by decide) (by decide +kernel)
    simp [h.hasList_of_link hLink rfl]
  | root r => cases r <;> simp
  | @input r f hf =>
    have hMem := mem_surviving.mpr ⟨r, f, hf, rfl⟩
    exact Or.inl (Or.inl (Or.inl (Or.inr (List.mem_flatMap.mpr ⟨f.2, hMem, by simp⟩))))
  | @result r f hf =>
    have hMem := mem_surviving.mpr ⟨r, f, hf, rfl⟩
    exact Or.inl (Or.inl (Or.inl (Or.inr (List.mem_flatMap.mpr ⟨f.2, hMem, by simp⟩))))
  | introspection hName => exact Or.inr (Or.inr ⟨rfl, hName⟩)

/-! ## Types that a schema must hold -/

section

variable (h : s.Fresh) {keys : List TypeKey} (hComplete : s.Complete keys)
include h hComplete

theorem mem_of_link {a b : TypeKey} (ha : a ∈ keys) (hLink : s.Link a b) : b ∈ keys :=
  hComplete.closed a ha b (h.grounded.link_refers h.supplied.wellFormed hLink)

theorem operation_mem {r : Root} {f : String × OperationTypes} (hf : f ∈ s.fieldsOf r) :
    f.2.inputKey ∈ keys ∧ f.2.resultKey ∈ keys := by
  have hRoot := hComplete.root_mem r
  exact ⟨h.mem_of_link hComplete hRoot (.input hf), h.mem_of_link hComplete hRoot (.result hf)⟩

theorem helpers_mem (hList : s.hasList = true) : sortKey ∈ keys ∧ paginateKey ∈ keys := by
  obtain ⟨t, ht, hKind⟩ := List.any_eq_true.mp hList
  obtain ⟨r, f, hf, rfl⟩ := mem_surviving.mp ht
  obtain ⟨m, -, o, -, hMake, -⟩ := h.grounded.operation_of_field hf
  obtain ⟨kind, slot, args, -, -, -, hTypes⟩ := OperationTypes.make_eq_ok.mp hMake
  obtain rfl : kind = .list := by simpa [hTypes] using hKind
  have hInput := (h.operation_mem hComplete hf).1
  have hFields : f.2.input = shapeInput .list args := by rw [hTypes]
  have hHelpers := mem_shapeInput_list args
  rw [← hFields] at hHelpers
  exact ⟨h.mem_of_link hComplete hInput (.argument hf hHelpers.1),
    h.mem_of_link hComplete hInput (.argument hf hHelpers.2)⟩

theorem time_mem (hTime : s.hasTime = true) : scalarKey "DateTime" ∈ keys := by
  obtain ⟨f, hf, hKey⟩ := List.any_eq_true.mp hTime
  have hKey : f.2.key = scalarKey "DateTime" := of_decide_eq_true hKey
  rw [← hKey]
  rcases List.mem_append.mp hf with hf | hf
  · obtain ⟨name, slot, e, fields, hEntry, hSlot, hFields, hf⟩ := h.mem_registeredFields.mp hf
    have hCurrent := h.supplied.coherent.current_name hSlot ⟨name, hEntry⟩
    have hOwner : (⟨.entity slot, e.model.name⟩ : TypeKey) ∈ keys :=
      hComplete.object_mem (h.grounded.objectKeys_mem.mpr ⟨slot, hCurrent, rfl⟩)
    exact h.mem_of_link hComplete hOwner (.field hSlot hFields hf)
  · obtain ⟨t, ht, hg⟩ := List.mem_flatMap.mp hf
    obtain ⟨r, f', hf', rfl⟩ := mem_surviving.mp ht
    exact h.mem_of_link hComplete (h.operation_mem hComplete hf').1 (.argument hf' hg)

/-- A schema holds every claimed type. -/
theorem claimedKeys_subset : s.claimedKeys ⊆ keys := by
  intro k hk
  simp only [claimedKeys, List.mem_append] at hk
  rcases hk with (((hk | hk) | hk) | hk) | hk
  · exact hComplete.object_mem hk
  · rcases List.mem_cons.mp hk with rfl | hk
    · exact hComplete.root_mem .query
    · exact List.mem_singleton.mp hk ▸ hComplete.root_mem .mutation
  · obtain ⟨t, ht, hk⟩ := List.mem_flatMap.mp hk
    obtain ⟨r, f, hf, rfl⟩ := mem_surviving.mp ht
    rcases List.mem_cons.mp hk with rfl | hk
    · exact (h.operation_mem hComplete hf).1
    · exact List.mem_singleton.mp hk ▸ (h.operation_mem hComplete hf).2
  · split at hk
    · rename_i hList
      rcases List.mem_cons.mp hk with rfl | hk
      · exact (h.helpers_mem hComplete hList).1
      · exact List.mem_singleton.mp hk ▸ (h.helpers_mem hComplete hList).2
    · cases hk
  · split at hk
    · rename_i hTime
      exact List.mem_singleton.mp hk ▸ h.time_mem hComplete hTime
    · cases hk

end

/-! ## Different types and different names -/

/-- Different root fields run different operations. -/
theorem surviving_nodup (h : s.Fresh) :
    (s.surviving.map fun t => (t.kind.root, t.field)).Nodup := by
  have hRoot : ∀ r, (s.fieldsOf r).map (fun f => (f.2.kind.root, f.2.field)) =
      (s.fieldsOf r).keys.map fun name => (r, name) := by
    intro r
    rw [Table.keys, List.map_map]
    refine List.map_congr_left fun f hf => ?_
    obtain ⟨hName, hRoot, -⟩ := RootFields.ofRoot_mem (h.grounded.fields r) hf
    exact Prod.ext hRoot hName.symm
  have hNodup : ∀ r, ((s.fieldsOf r).keys.map fun name => (r, name)).Nodup := fun r =>
    (RootFields.ofRoot_nodup (h.grounded.fields r)).map fun _ _ hEq => (Prod.mk.inj hEq).2
  have hQuery := hRoot .query
  have hMutation := hRoot .mutation
  simp only [fieldsOf] at hQuery hMutation
  rw [surviving, List.map_map, List.map_append]
  simp only [Function.comp_def, hQuery, hMutation]
  refine List.nodup_append.mpr ⟨hNodup .query, hNodup .mutation, ?_⟩
  rintro a ha b hb rfl
  obtain ⟨_, -, hFirst⟩ := List.mem_map.mp ha
  obtain ⟨_, -, hSecond⟩ := List.mem_map.mp hb
  cases hFirst.trans hSecond.symm

theorem operationKeys_nodup (h : s.Fresh) :
    (s.surviving.flatMap fun t => [t.inputKey, t.resultKey]).Nodup := by
  refine List.nodup_flatMap.mpr ⟨fun t _ => by simp [OperationTypes.inputKey,
    OperationTypes.resultKey], ?_⟩
  have hFields := List.pairwise_map.mp h.surviving_nodup
  refine hFields.imp fun {t t'} hNe k hk hk' => hNe ?_
  have hOrigin : ∀ {t : OperationTypes}, k ∈ [t.inputKey, t.resultKey] →
      k.origin = .input t.kind.root t.field ∨ k.origin = .result t.kind.root t.field := by
    intro t hMem
    rcases List.mem_cons.mp hMem with rfl | hMem
    · exact Or.inl rfl
    · exact Or.inr (List.mem_singleton.mp hMem ▸ rfl)
  rcases hOrigin hk with hFirst | hFirst <;> rcases hOrigin hk' with hSecond | hSecond
  · obtain ⟨hRoot, hField⟩ := Origin.input.inj (hFirst.symm.trans hSecond)
    exact Prod.ext hRoot hField
  · cases hFirst.symm.trans hSecond
  · cases hFirst.symm.trans hSecond
  · obtain ⟨hRoot, hField⟩ := Origin.result.inj (hFirst.symm.trans hSecond)
    exact Prod.ext hRoot hField

/-- Types of a further rank are different from those of all ranks before. -/
theorem nodup_append_of_rank {ks : List TypeKey} {n : Nat}
    (h : ks.Nodup ∧ ∀ k ∈ ks, k.origin.rank < n) (ks' : List TypeKey) (hNodup : ks'.Nodup)
    (hRank : ∀ k ∈ ks', k.origin.rank = n) :
    (ks ++ ks').Nodup ∧ ∀ k ∈ ks ++ ks', k.origin.rank < n + 1 := by
  refine ⟨List.nodup_append.mpr ⟨h.1, hNodup, ?_⟩, ?_⟩
  · intro a ha b hb hSame
    have hLess := h.2 a ha
    have hEqual := hRank b hb
    rw [hSame] at hLess
    omega
  · intro k hk
    rcases List.mem_append.mp hk with hk | hk
    · exact Nat.lt_succ_of_lt (h.2 k hk)
    · exact (hRank k hk).symm ▸ Nat.lt_succ_self n

theorem claimedKeys_nodup (h : s.Fresh) : s.claimedKeys.Nodup := by
  have hObjects : s.objectKeys.Nodup ∧ ∀ k ∈ s.objectKeys, k.origin.rank < 1 := by
    refine ⟨List.Nodup.of_map (·.name) ?_, fun k hk => ?_⟩
    · rw [objectKeys, List.map_map]
      exact h.supplied.coherent.nodup
    · rw [objectKeys_rank hk]
      exact Nat.zero_lt_one
  have hPair : ∀ k ∈ s.surviving.flatMap (fun t => [t.inputKey, t.resultKey]),
      k.origin.rank = 2 := by
    intro k hk
    obtain ⟨t, -, hk⟩ := List.mem_flatMap.mp hk
    rcases List.mem_cons.mp hk with rfl | hk
    · rfl
    · exact List.mem_singleton.mp hk ▸ rfl
  have hRoots := nodup_append_of_rank hObjects [rootKey .query, rootKey .mutation]
    (by decide) (by decide)
  have hOperations := nodup_append_of_rank hRoots _ h.operationKeys_nodup hPair
  have hHelpers := nodup_append_of_rank hOperations
    (if s.hasList then [sortKey, paginateKey] else []) (by split <;> decide) (by split <;> decide)
  exact (nodup_append_of_rank hHelpers (if s.hasTime then [scalarKey "DateTime"] else [])
    (by split <;> decide) (by split <;> decide)).1

/-- No claimed name is reserved. -/
theorem claimed_not_reserved (h : s.Fresh) {k : TypeKey} (hk : k ∈ s.claimedKeys) :
    isReservedType k.name = false := by
  simp only [claimedKeys, List.mem_append] at hk
  rcases hk with (((hk | hk) | hk) | hk) | hk
  · obtain ⟨slot, hObject, -⟩ := h.grounded.objectKeys_mem.mp hk
    obtain ⟨e, hSlot, hName⟩ := h.supplied.coherent.object hObject
    have hChecked := h.supplied.coherent.named e.model
      (h.supplied.coherent.mem_models (List.mem_of_getElem? hSlot))
    rw [hName, checkTypeName] at hChecked
    split at hChecked
    · cases hChecked
    · rename_i hFree
      exact Bool.eq_false_iff.mpr hFree
  · revert k
    decide +kernel
  · obtain ⟨t, -, hk⟩ := List.mem_flatMap.mp hk
    rcases List.mem_cons.mp hk with rfl | hk
    · exact Naming.inputType_not_reserved
    · exact List.mem_singleton.mp hk ▸ Naming.resultType_not_reserved
  · split at hk
    · revert k
      decide +kernel
    · cases hk
  · split at hk
    · revert k
      decide +kernel
    · cases hk

/-- Types of a schema have distinct names if the claimed names are distinct. -/
theorem names_nodup_iff (h : s.Fresh) {keys : List TypeKey} (hTypes : s.types = .ok keys) :
    (keys.map (·.name)).Nodup ↔ s.claimedNames.Nodup := by
  obtain ⟨hComplete, hKeys⟩ := h.mem_types hTypes
  rw [← s.map_claimedKeys]
  constructor
  · intro hNodup
    refine List.Nodup.map_on (fun a ha b hb hName => ?_) h.claimedKeys_nodup
    exact List.inj_on_of_nodup_map hNodup (h.claimedKeys_subset hComplete ha)
      (h.claimedKeys_subset hComplete hb) hName
  · intro hNodup
    refine List.Nodup.map_on (fun a ha b hb hName => ?_) hComplete.nodup
    -- types that are not claimed are reserved, and no claimed type has a reserved name
    rcases hKeys a ha with hClaimed | hReserved <;> rcases hKeys b hb with hClaimed' | hReserved'
    · exact List.inj_on_of_nodup_map hNodup hClaimed hClaimed' hName
    · have hFree := h.claimed_not_reserved hClaimed
      rw [hName, hReserved'.isReservedType] at hFree
      cases hFree
    · have hFree := h.claimed_not_reserved hClaimed'
      rw [← hName, hReserved.isReservedType] at hFree
      cases hFree
    · exact hReserved.eq hReserved' hName

/-- A schema exists exactly if the claimed names are distinct; otherwise a name is reported that two
of its types share. -/
theorem build_cases (h : s.Fresh) :
    s.claimedNames.Nodup ∧ (∃ schema, (Schema.build s.registry).value.2 = .ok schema) ∨
      ¬ s.claimedNames.Nodup ∧
        ∃ name, (Schema.build s.registry).value.2 = .error (.duplicateType name) := by
  have hDefined : ∀ k, s.Known k → ∃ d, s.definition k = .ok d :=
    fun k hk => h.grounded.definition_ok h.supplied.wellFormed hk
  obtain ⟨keys, hTypes⟩ := h.grounded.types_ok hDefined
  have hBuild : (Schema.build s.registry).value.2 = s.schemaOf keys := by
    rw [build_value, h.sources]
    simp only [Sources.build, hTypes]
  rw [hBuild, ← h.names_nodup_iff hTypes]
  by_cases hNodup : (keys.map (·.name)).Nodup
  · refine Or.inl ⟨hNodup, schemaOf_ok hNodup fun k hk => ?_⟩
    exact (h.mem_types hTypes).1.defined k hk
  · exact Or.inr ⟨hNodup, schemaOf_repeated hNodup⟩

end Fresh

end Sources

/-! ## Registered entities -/

/-- A new registry of well-formed entities with targets for their relationships has the sources of a
schema, and nothing kept. -/
theorem fresh_of_register {models : List Model} {r : Registry}
    (hWell : ∀ m ∈ models, m.WellFormed) (hAdded : register {} models = .ok r)
    (hTargets : ∀ m ∈ models, ∀ t ∈ m.relationships,
      t.type ∈ defaultScalars ∨ ∃ m' ∈ models, m'.name = t.type) :
    ∃ s : Sources, s.registry = r ∧ s.Fresh := by
  obtain ⟨hCoherent, hScalars, hModels, hForget⟩ := register_spec hAdded
  have hSupplied : r.Supplied := by
    refine ⟨hCoherent, hScalars ▸ fun _ h => h, hModels ▸ hWell, fun m hm t ht => ?_⟩
    rw [hModels] at hm
    rcases hTargets m hm t ht with hScalar | ⟨m', hm', hName⟩
    · exact Registry.has_iff.mpr (Or.inl (hScalars ▸ hScalar))
    · refine Registry.has_iff.mpr (Or.inr (Table.get?_isSome_iff.mp ?_))
      exact hName ▸ hCoherent.object_of_mem (hModels.symm ▸ hm')
  obtain ⟨s, hSources⟩ := hSupplied.sources_ok
  obtain ⟨rfl, -⟩ := Sources.grounded hCoherent hSources
  exact ⟨s, rfl, hSupplied, hSources, hScalars, hForget⟩

/-- A schema of entities that were read fails exactly if some claimed name occurs twice, and always
because two types share a name. -/
theorem build_fails_iff {models : List Model} {r : Registry}
    (hRead : ∀ m ∈ models, ∃ v, Input.model.read v = .ok m)
    (hAdded : register {} models = .ok r)
    (hTargets : ∀ m ∈ models, ∀ t ∈ m.relationships,
      t.type ∈ defaultScalars ∨ ∃ m' ∈ models, m'.name = t.type) :
    ∃ query mutation, (RootFields.ofRoot r .query).value = .ok query ∧
      (RootFields.ofRoot r .mutation).value = .ok mutation ∧
      ((∃ failure, (build r).value.2 = .error failure) ↔
        ∃ name, 2 ≤ (Sources.claimedNames ⟨r, query, mutation⟩).count name) ∧
      ∀ failure, (build r).value.2 = .error failure →
        ∃ name, failure = .duplicateType name := by
  have hWell : ∀ m ∈ models, m.WellFormed := by
    intro m hm
    obtain ⟨v, hm⟩ := hRead m hm
    exact Model.wellFormed_of_read hm
  obtain ⟨⟨r, query, mutation⟩, rfl, hFresh⟩ := fresh_of_register hWell hAdded hTargets
  have hRepeated : (∃ name, 2 ≤ (Sources.claimedNames ⟨r, query, mutation⟩).count name) ↔
      ¬ (Sources.claimedNames ⟨r, query, mutation⟩).Nodup := by
    rw [List.nodup_iff_count_le_one, not_forall]
    exact exists_congr fun name => by omega
  refine ⟨query, mutation, hFresh.grounded.fields .query, hFresh.grounded.fields .mutation, ?_, ?_⟩
  · rw [hRepeated]
    rcases hFresh.build_cases with ⟨hNodup, schema, hBuild⟩ | ⟨hNot, name, hBuild⟩
    · simp [hNodup, hBuild]
    · simp [hNot, hBuild]
  · intro failure hFailure
    rcases hFresh.build_cases with ⟨-, schema, hBuild⟩ | ⟨-, name, hBuild⟩
    · cases hBuild.symm.trans hFailure
    · exact ⟨name, Except.error.inj (hFailure.symm.trans hBuild)⟩

/-- An entity that is its own sequel and is shown by two operations. -/
def shownTwice : Model :=
  ⟨"Book", [], [⟨"sequel", "Book", false, false⟩],
    [⟨"get", "Show", [], []⟩, ⟨"fetch", "Show", [], []⟩]⟩

/-- A value that reads as this entity. -/
def shownTwiceValue : Value :=
  Value.record [("name", .text "Book"), ("properties", .list []),
    ("relationships", .list [Value.record [("name", .text "sequel"), ("type", .text "Book"),
      ("required", .bool false)]]),
    ("operations", .list [Value.record [("name", .text "get"), ("type", .text "Show")],
      Value.record [("name", .text "fetch"), ("type", .text "Show")]])]

/-- The registry of this entity. -/
def shownTwiceRegistry : Registry :=
  { slots := [{ model := shownTwice }], objects := [("Book", 0)], models := [shownTwice] }

theorem build_fails_shownTwice :
    ∃ query mutation, (RootFields.ofRoot shownTwiceRegistry .query).value = .ok query ∧
      (RootFields.ofRoot shownTwiceRegistry .mutation).value = .ok mutation ∧
      ((∃ failure, (build shownTwiceRegistry).value.2 = .error failure) ↔
        ∃ name, 2 ≤ (Sources.claimedNames ⟨shownTwiceRegistry, query, mutation⟩).count name) ∧
      ∀ failure, (build shownTwiceRegistry).value.2 = .error failure →
        ∃ name, failure = .duplicateType name := by
  have hRead : Input.model.read shownTwiceValue = .ok shownTwice := by rfl
  refine @build_fails_iff [shownTwice] shownTwiceRegistry ?_ (by rfl) ?_
  · intro m hm
    obtain rfl := List.mem_singleton.mp hm
    exact ⟨shownTwiceValue, hRead⟩
  · intro m hm t ht
    obtain rfl := List.mem_singleton.mp hm
    obtain rfl := List.mem_singleton.mp ht
    exact Or.inr ⟨shownTwice, List.mem_singleton_self _, rfl⟩

end EntityGraph.Schema
