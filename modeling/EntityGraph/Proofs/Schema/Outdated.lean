import EntityGraph.Proofs.Schema.Graph

/-!
# Fields kept for too long

The fields of an object type are worked out once and kept.  If an entity is registered again later,
kept fields still refer to the object type that it had before.

* `Registry.Outdated`: a registered object type keeps such a field;
* `build_forget`: otherwise a schema does not depend on what is kept;
* `Outdated.build_fails`: an outdated registry has no schema, since the type that was replaced and
  the one that took its place have the same name.
-/

namespace EntityGraph.Schema

open Outcome

namespace Registry

/-- The object type in a slot is registered under a name. -/
def IsCurrent (r : Registry) (slot : Nat) : Prop := ∃ name, r.objects.get? name = some slot

/-- A registered object type keeps a field of a type that has been replaced. -/
def Outdated (r : Registry) : Prop :=
  ∃ slot e fields, r.IsCurrent slot ∧ r.slots[slot]? = some e ∧ e.fields = some fields ∧
    ∃ f ∈ fields, ∃ other, f.2.key.origin = .entity other ∧ ¬ r.IsCurrent other

/-- Current types have current names. -/
theorem Coherent.current_name {r : Registry} (h : r.Coherent) {slot : Nat} {e : Slot}
    (hSlot : r.slots[slot]? = some e) (hCurrent : r.IsCurrent slot) :
    r.objects.get? e.model.name = some slot := by
  obtain ⟨name, hObject⟩ := hCurrent
  obtain ⟨e', hSlot', hName⟩ := h.object hObject
  obtain rfl := Option.some.inj (hSlot.symm.trans hSlot')
  exact hName ▸ hObject

/-- Up to date, an earlier registry gives a kept declaration the type that it has now. -/
theorem find?_of_current {old r : Registry} (h : r.Coherent) (hOld : old.Precedes r) {name : String}
    {key : TypeKey} (hFind : old.find? name = some key)
    (hCurrent : ∀ other, key.origin = .entity other → r.IsCurrent other) :
    r.find? name = some key := by
  rcases find?_eq_some.mp hFind with ⟨hScalar, rfl⟩ | ⟨hScalar, slot, hObject, rfl⟩
  · exact find?_eq_some.mpr (Or.inl ⟨hOld.scalars ▸ hScalar, rfl⟩)
  · obtain ⟨e, hSlot, rfl⟩ := hOld.object hObject
    exact find?_eq_some.mpr (Or.inr ⟨hOld.scalars ▸ hScalar, slot,
      h.current_name hSlot (hCurrent slot rfl), rfl⟩)

end Registry

/-! ## Without kept fields -/

section

variable (r : Registry)

theorem modelFields_forget (m : Model) : modelFields r.forget m = modelFields r m := rfl

theorem checkReferences_forget : checkReferences r.forget = checkReferences r := rfl

theorem collectFrom_forget (wanted : Kind → Bool) (fields : RootFields) (overwritten : List String)
    (ops : List (Model × Operation)) :
    RootFields.collectFrom r.forget wanted fields overwritten ops =
      RootFields.collectFrom r wanted fields overwritten ops := by
  induction ops generalizing fields overwritten with
  | nil => rfl
  | cons mo ops ih =>
    have hMake : ∀ m o, OperationTypes.make r.forget m o = OperationTypes.make r m o :=
      fun _ _ => rfl
    obtain ⟨m, o⟩ := mo
    simp only [RootFields.collectFrom, ih, hMake]

theorem ofRoot_forget (root : Root) :
    (RootFields.ofRoot r.forget root).value = (RootFields.ofRoot r root).value :=
  congrArg Prod.snd (collectFrom_forget r _ [] [] _)

end

namespace Sources

/-- Sources without kept fields. -/
def forget (s : Sources) : Sources := { s with registry := s.registry.forget }

end Sources

theorem sources_forget (r : Registry) :
    (sources r.forget).value = (sources r).value.map Sources.forget := by
  unfold sources
  rw [checkReferences_forget]
  cases checkReferences r with
  | error failure => rfl
  | ok u =>
    simp only [Logged.value_bind, ofRoot_forget]
    cases (RootFields.ofRoot r .query).value with
    | error failure => rfl
    | ok query =>
      simp only [Logged.value_bind, ofRoot_forget]
      cases (RootFields.ofRoot r .mutation).value <;> rfl

namespace Sources

/-- A type that is registered if it is an object type at all. -/
def Current (s : Sources) (k : TypeKey) : Prop := ∀ slot, k.origin = .entity slot → k ∈ s.objectKeys

theorem current_starts (s : Sources) : ∀ k ∈ s.starts, s.Current k := by
  intro k hk slot hOrigin
  rcases List.mem_append.mp hk with hk | hk
  · exact hk
  · simp only [standardKeys, List.mem_cons, List.mem_append, List.mem_map] at hk
    rcases hk with rfl | rfl | ⟨name, -, rfl⟩ | ⟨name, -, rfl⟩ <;> cases hOrigin

/-- A known object type has a slot. -/
theorem Known.slot {s : Sources} {k : TypeKey} (h : s.Known k) {slot : Nat}
    (hOrigin : k.origin = .entity slot) :
    ∃ e, s.registry.slots[slot]? = some e ∧ e.model.name = k.name := by
  cases h with
  | entity hSlot =>
    obtain rfl := Origin.entity.inj hOrigin
    exact ⟨_, hSlot, rfl⟩
  | _ => cases hOrigin

namespace Grounded

variable {s : Sources}

theorem current_of_find? (h : s.Grounded) {name : String} {key : TypeKey}
    (hFind : s.registry.find? name = some key) : s.Current key := by
  rcases Registry.find?_eq_some.mp hFind with ⟨-, rfl⟩ | ⟨-, slot, hObject, rfl⟩
  · exact fun slot hOrigin => nomatch hOrigin
  · exact fun _ _ => h.objectKeys_mem.mpr ⟨slot, hObject, rfl⟩

/-- What a registered object type keeps is what the registry would give it now. -/
theorem kept_eq (h : s.Grounded) (hDate : ¬ s.registry.Outdated) {slot : Nat} {e : Slot}
    (hSlot : s.registry.slots[slot]? = some e) (hCurrent : s.registry.IsCurrent slot)
    {kept : Table TypeExpr} (hKept : e.fields = some kept) :
    modelFields s.registry e.model = .ok kept := by
  have hMem := List.mem_of_getElem? hSlot
  obtain ⟨old, hOld, hModel, -⟩ := h.coherent.kept e hMem kept hKept
  obtain ⟨hHas, hEq⟩ := modelFields_eq_ok.mp hModel
  obtain ⟨now, hNow⟩ := checkReferences_eq_ok.mp h.references e.model (h.coherent.mem_models hMem)
  refine modelFields_eq_ok.mpr ⟨(modelFields_eq_ok.mp hNow).1, hEq.trans ?_⟩
  refine List.map_congr_left fun f hf => ?_
  obtain ⟨hDeclared, -⟩ := mem_of_mem_surviving hf
  have hFind := Registry.typeIn_key (hHas f.2 hDeclared)
  have hSame : s.registry.find? f.2.type = some (f.2.typeIn old).key := by
    refine Registry.find?_of_current h.coherent hOld hFind fun other hOther => ?_
    by_contra hGone
    refine hDate ⟨slot, e, kept, hCurrent, hSlot, hKept, (f.1, f.2.typeIn old), ?_, other,
      hOther, hGone⟩
    rw [hEq]
    exact List.mem_map_of_mem hf
  rw [Declaration.typeIn, Declaration.typeIn, hFind, hSame]

/-- Up to date, only registered object types are referred to. -/
theorem link_current (h : s.Grounded) (hDate : ¬ s.registry.Outdated) {a b : TypeKey}
    (ha : s.Current a) (hLink : s.Link a b) : s.Current b := by
  cases hLink with
  | @field slot e fields f hSlot hFields hf =>
    have hRegistered := ha slot rfl
    obtain ⟨_, hObject, hOrigin⟩ := h.objectKeys_mem.mp hRegistered
    obtain rfl := Origin.entity.inj hOrigin
    have hNow : modelFields s.registry e.model = .ok fields := by
      obtain ⟨old, -, hModel, hNew⟩ := h.slotFields_eq_ok hSlot hFields
      cases hKept : e.fields with
      | none => exact hNew hKept ▸ hModel
      | some kept =>
        rw [slotFields, hSlot] at hFields
        simp only [hKept, Except.ok.injEq] at hFields
        exact hFields ▸ h.kept_eq hDate hSlot ⟨_, hObject⟩ hKept
    obtain ⟨hHas, rfl⟩ := modelFields_eq_ok.mp hNow
    obtain ⟨d, -, -, hFind⟩ := find?_of_resolved hHas hf
    exact h.current_of_find? hFind
  | column => exact fun slot hOrigin => nomatch hOrigin
  | amount => exact fun slot hOrigin => nomatch hOrigin
  | input => exact fun slot hOrigin => nomatch hOrigin
  | result => exact fun slot hOrigin => nomatch hOrigin
  | argument hf hg =>
    rcases (h.operationTypes_keys hf).2 _ hg with ⟨name, hFind⟩ | hID | ⟨-, hSort | hPage⟩
    · exact h.current_of_find? hFind
    · exact fun slot hOrigin => nomatch hID ▸ hOrigin
    · exact fun slot hOrigin => nomatch hSort ▸ hOrigin
    · exact fun slot hOrigin => nomatch hPage ▸ hOrigin
  | entry hf hg =>
    obtain ⟨slot, hSlot, hKeys⟩ := (h.operationTypes_keys hf).1
    rcases hKeys _ hg with hEntity | hInt
    · exact fun _ _ => hEntity ▸ h.objectKeys_mem.mpr ⟨slot, hSlot, rfl⟩
    · exact fun slot hOrigin => nomatch hInt ▸ hOrigin

/-- Up to date, the definitions of registered types do not depend on what is kept. -/
theorem definition_forget (h : s.Grounded) (hDate : ¬ s.registry.Outdated) {k : TypeKey}
    (hKnown : s.Known k) (hCurrent : s.Current k) : s.forget.definition k = s.definition k := by
  cases hKnown with
  | @entity slot e hSlot =>
    obtain ⟨_, hObject, hOrigin⟩ := h.objectKeys_mem.mp (hCurrent slot rfl)
    obtain rfl := Origin.entity.inj hOrigin
    have hForget : s.forget.registry.slots[slot]? = some { model := e.model } := by
      simp [Sources.forget, Registry.forget, hSlot]
    have hFields : s.forget.slotFields slot = s.slotFields slot := by
      unfold slotFields
      rw [hForget, hSlot]
      cases hKept : e.fields with
      | none => simp [Sources.forget, modelFields_forget, hKept]
      | some kept =>
        obtain ⟨_, -, -, hNames⟩ := h.coherent.kept e (List.mem_of_getElem? hSlot) kept hKept
        have hNow := h.kept_eq hDate hSlot ⟨_, hObject⟩ hKept
        simp only [hKept, Sources.forget, modelFields_forget, hNow]
        exact bind_eq_ok.mpr ⟨kept, rfl, checkFieldNames_eq_ok.mpr ⟨rfl, hNames⟩⟩
    simp only [definition, hFields]
  | scalar => rfl
  | introspection => rfl
  | sort => rfl
  | paginate => rfl
  | root r => cases r <;> rfl
  | @input r => cases r <;> rfl
  | @result r => cases r <;> rfl

/-- Up to date, the types of a schema do not depend on what is kept. -/
theorem types_forget (h : s.Grounded) (hDate : ¬ s.registry.Outdated) :
    s.forget.types = s.types := by
  have hClosed : ∀ a b, s.Known a ∧ s.Current a → Refers s.definition a b →
      s.Known b ∧ s.Current b :=
    fun a b ha hb => ⟨h.bounded.closed ha.1 hb, h.link_current hDate ha.2 (h.link ha.1 hb)⟩
  have hSame : ∀ k, s.Known k ∧ s.Current k → s.forget.definition k = s.definition k :=
    fun k hk => h.definition_forget hDate hk.1 hk.2
  have hStarts : ∀ k ∈ s.starts, s.Known k ∧ s.Current k :=
    fun k hk => ⟨h.starts_known k hk, s.current_starts k hk⟩
  have hDepth : s.forget.depth = s.depth := by simp [Sources.forget, depth, Registry.forget]
  have hObjects : s.forget.objectKeys = s.objectKeys := rfl
  unfold types
  rw [hDepth, hObjects, collectAll_congr hClosed hSame s.depth s.objectKeys
    fun k hk => hStarts k (List.mem_append_left _ hk)]
  refine congrArg _ (funext fun middle => ?_)
  exact foldlM_congr (fun seen k hk => collect_congr hClosed hSame [] s.depth seen k
    (hStarts k (List.mem_append_right _ hk))) middle

/-- Up to date, a schema does not depend on what is kept. -/
theorem build_forget (h : s.Grounded) (hDate : ¬ s.registry.Outdated) :
    s.forget.build.2 = s.build.2 := by
  unfold build
  rw [h.types_forget hDate]
  cases hTypes : s.types with
  | error halt => rfl
  | ok keys =>
    obtain ⟨hComplete, hCurrent⟩ := h.types_spec (P := s.Current)
      (fun a b ha hCurrent hb => h.link_current hDate hCurrent (h.link ha hb))
      s.current_starts hTypes
    have hDefinitions : (keys.mapM fun key => do
          return (key, ← s.forget.definition key) : Except Failure _) =
        keys.mapM fun key => do return (key, ← s.definition key) :=
      mapM_congr fun k hk => by
        rw [h.definition_forget hDate (hComplete.known k hk) (hCurrent k hk)]
    simp only [schemaOf, hDefinitions]

end Grounded

end Sources

/-! ## Schemas of registries with kept fields -/

/-- Up to date, a registry has the schema that it would have without kept fields. -/
theorem build_forget {r : Registry} (h : r.Coherent) (hDate : ¬ r.Outdated) :
    (build r.forget).value.2 = (build r).value.2 := by
  rw [build_value, build_value, sources_forget]
  cases hSources : (sources r).value with
  | error failure => rfl
  | ok s =>
    obtain ⟨rfl, hGrounded⟩ := Sources.grounded h hSources
    exact hGrounded.build_forget hDate

/-- A schema is made of the types that are reached, under distinct names. -/
theorem build_eq_ok {r : Registry} {schema : Schema} :
    (build r).value.2 = .ok schema ↔ ∃ s keys, (sources r).value = .ok s ∧ s.types = .ok keys ∧
      s.schemaOf keys = .ok schema := by
  rw [build_value]
  cases (sources r).value with
  | error failure => simp
  | ok s =>
    simp only [Except.ok.injEq, exists_eq_left', exists_and_left, Sources.build]
    cases s.types <;> simp

/-- An outdated registry has no schema. -/
theorem Registry.Outdated.build_fails {r : Registry} (h : r.Coherent) (hOutdated : r.Outdated) :
    ∃ failure, (build r).value.2 = .error failure := by
  cases hBuild : (build r).value.2 with
  | error failure => exact ⟨failure, rfl⟩
  | ok schema =>
    exfalso
    obtain ⟨s, keys, hSources, hTypes, hSchema⟩ := build_eq_ok.mp hBuild
    obtain ⟨rfl, hGrounded⟩ := Sources.grounded h hSources
    obtain ⟨hComplete, -⟩ := hGrounded.types_spec (P := fun _ => True)
      (fun _ _ _ _ _ => trivial) (fun _ _ => trivial) hTypes
    obtain ⟨hNodup, -⟩ := Sources.schemaOf_eq_ok.mp hSchema
    obtain ⟨slot, e, fields, hCurrent, hSlot, hKept, f, hf, other, hOther, hGone⟩ := hOutdated
    have hRegistered : ∀ {i : Nat} {name : String}, s.registry.objects.get? name = some i →
        (⟨.entity i, name⟩ : TypeKey) ∈ keys := fun hObject =>
      hComplete.starts (List.mem_append_left _ (hGrounded.objectKeys_mem.mpr ⟨_, hObject, rfl⟩))
    -- the type that was replaced is reached through the field that was kept
    have hOld : f.2.key ∈ keys := by
      refine hComplete.closed _ (hRegistered (h.current_name hSlot hCurrent)) _ ?_
      refine Sources.refers_entity.mpr ⟨fields, ?_, f, hf, rfl⟩
      rw [Sources.slotFields, hSlot]
      simp only [hKept]
    -- and the type that took its place is registered under the same name
    obtain ⟨new, hNew⟩ : ∃ new, s.registry.objects.get? f.2.key.name = some new := by
      obtain ⟨e', hSlot', hName⟩ := (hComplete.known _ hOld).slot hOther
      exact Table.get?_isSome_iff.mpr (hName ▸ h.registered e' (List.mem_of_getElem? hSlot'))
    have hSame : f.2.key = ⟨.entity new, f.2.key.name⟩ :=
      List.inj_on_of_nodup_map hNodup hOld (hRegistered hNew) rfl
    rw [hSame] at hOther
    obtain rfl := Origin.entity.inj hOther
    exact hGone ⟨_, hNew⟩

end EntityGraph.Schema
