import EntityGraph.Proofs.Outcome
import EntityGraph.Proofs.Table
import EntityGraph.Schema
import Mathlib.Data.List.Induction

/-!
# What registries hold

An entity is registered with an object type in a slot of its own, and the name leads to the slot of
the last entity that has it.  Building a schema leaves all of this alone and only keeps the fields
that it worked out.

* `addModel_eq_ok`: what a registration that succeeds does;
* `Registry.Coherent`: names, slots and entities belong together, and kept fields were resolved
  against registrations that are still there;
* `Coherent.addModel`, `Coherent.keep`: both changes of a registry preserve this;
* `mem_declarations`, `map_name_declarations`: what an entity declares;
* `get?_surviving`, `length_surviving`: the last declaration of each name is kept;
* `modelFields_eq_ok`: the fields of an entity by name, its last declaration of each name with the
  type that the registry gives;
* `Registry.forget`: a registry without kept fields, as registrations alone leave it;
* `register_spec`, `keys_register`: what registrations from an empty registry lead to.
-/

namespace EntityGraph.Schema

open Outcome

/-! ## Names and fields -/

theorem checkFieldNames_eq_ok {α : Type} {t t' : Table α} :
    checkFieldNames t = .ok t' ↔ t' = t ∧ ∀ k ∈ t.keys, checkName k = .ok () := by
  unfold checkFieldNames
  rw [bind_eq_ok]
  constructor
  · rintro ⟨_, h, hEq⟩
    refine ⟨(pure_eq_ok.mp hEq).symm, fun k hk => ?_⟩
    obtain ⟨_, hName⟩ := forIn_eq_ok.mp h k hk
    exact hName
  · rintro ⟨rfl, h⟩
    exact ⟨PUnit.unit, forIn_eq_ok.mpr fun k hk => ⟨(), h k hk⟩, rfl⟩

/-- What is made of fields once their names have been checked. -/
theorem checked_eq_ok {α β : Type} {fields : Table α} {f : Table α → β} {b : β} :
    (do return f (← checkFieldNames fields) : Except Failure β) = .ok b ↔
      (∀ k ∈ fields.keys, checkName k = .ok ()) ∧ b = f fields := by
  rw [bind_eq_ok]
  constructor
  · rintro ⟨fields', hFields, hEq⟩
    obtain ⟨rfl, hNames⟩ := checkFieldNames_eq_ok.mp hFields
    exact ⟨hNames, (pure_eq_ok.mp hEq).symm⟩
  · rintro ⟨hNames, rfl⟩
    exact ⟨fields, checkFieldNames_eq_ok.mpr ⟨rfl, hNames⟩, rfl⟩

@[simp] theorem TypeExpr.key_wrap (base : TypeExpr) (isList required : Bool) :
    (base.wrap isList required).key = base.key := by
  cases isList <;> cases required <;> rfl

theorem TypeExpr.wrap_named_inj {key key' : TypeKey} {isList isList' required required' : Bool} :
    (TypeExpr.named key).wrap isList required = (TypeExpr.named key').wrap isList' required' ↔
      key = key' ∧ isList = isList' ∧ required = required' := by
  cases isList <;> cases isList' <;> cases required <;> cases required' <;> simp [TypeExpr.wrap]

namespace Declaration

/-- The type that a registry gives a declaration whose type it has. -/
def typeIn (r : Registry) (d : Declaration) : TypeExpr :=
  (TypeExpr.named ((r.find? d.type).getD default)).wrap d.list d.required

theorem type_eq_ok {r : Registry} {d : Declaration} {type : TypeExpr} :
    r.resolve d.type d.list d.required = .ok type ↔ r.has d.type = true ∧ type = d.typeIn r := by
  unfold Registry.resolve Registry.get Registry.has typeIn
  cases r.find? d.type with
  | none => simp [Except.map]
  | some key =>
    simp only [Except.map, Except.ok.injEq, Option.isSome_some, Option.getD_some, true_and]
    exact eq_comm

theorem resolve_eq_ok {r : Registry} {d : Declaration} {field : String × TypeExpr} :
    d.resolve r = .ok field ↔ r.has d.type = true ∧ field = (d.name, d.typeIn r) := by
  rw [resolve, map_eq_ok]
  constructor
  · rintro ⟨type, hType, rfl⟩
    obtain ⟨hHas, rfl⟩ := type_eq_ok.mp hType
    exact ⟨hHas, rfl⟩
  · rintro ⟨hHas, rfl⟩
    exact ⟨_, type_eq_ok.mpr ⟨hHas, rfl⟩, rfl⟩

end Declaration

/-- An entity declares its identifier, its properties and its relationships. -/
theorem mem_declarations {m : Model} {d : Declaration} :
    d ∈ declarations m ↔ d = ⟨"id", "ID", false, true⟩ ∨
      (∃ p ∈ m.properties, Declaration.ofProperty p = d) ∨
        ∃ t ∈ m.relationships, Declaration.ofRelationship t = d := by
  simp only [declarations, List.mem_cons, List.mem_append, List.mem_map]

theorem map_name_declarations (m : Model) :
    (declarations m).map (·.name) = "id" :: m.fieldNames := by
  simp [declarations, Model.fieldNames, Model.propertyNames, Declaration.ofProperty,
    Declaration.ofRelationship, Function.comp_def]

/-- Declarations by name; the last one of a name counts. -/
def surviving (ds : List Declaration) : Table Declaration :=
  Table.putAll [] (ds.map fun d => (d.name, d))

theorem mem_of_mem_surviving {ds : List Declaration} {e : String × Declaration}
    (h : e ∈ surviving ds) : e.2 ∈ ds ∧ e.1 = e.2.name := by
  rcases Table.mem_putAll h with h | h
  · simp at h
  · obtain ⟨d, hd, rfl⟩ := List.mem_map.mp h
    exact ⟨hd, rfl⟩

theorem get?_surviving (ds : List Declaration) (name : String) :
    (surviving ds).get? name = lastNamed (·.name) ds name :=
  Table.get?_putAll_named _ ds name

/-- There is one declaration left for every name. -/
theorem length_surviving (ds : List Declaration) :
    (surviving ds).length = (firstOccurrences (ds.map (·.name))).length := by
  have hKeys : (surviving ds).keys = firstOccurrences (ds.map (·.name)) := by
    rw [surviving, Table.keys_putAll_empty, List.map_map]
    rfl
  rw [← hKeys, Table.keys, List.length_map]

/-- Declarations resolve as soon as the registry has their types, and then each name has the type of
its last declaration. -/
theorem resolveAll_eq_ok {r : Registry} {ds : List Declaration} {fields : Table TypeExpr} :
    (do return Table.putAll [] (← ds.mapM (Declaration.resolve r)) : Except Failure _) =
        .ok fields ↔
      (∀ d ∈ ds, r.has d.type = true) ∧
        fields = (surviving ds).mapValues (Declaration.typeIn r) := by
  have hWrites : (surviving ds).mapValues (Declaration.typeIn r) =
      Table.putAll [] (ds.map fun d => (d.name, d.typeIn r)) := by
    rw [surviving, ← Table.putAll_mapValues, List.map_map]
    rfl
  rw [bind_eq_ok, hWrites]
  constructor
  · rintro ⟨entries, hEntries, h⟩
    have hHas : ∀ d ∈ ds, r.has d.type = true := by
      intro d hd
      obtain ⟨field, -, hField⟩ := mem_mapM hEntries hd
      exact (Declaration.resolve_eq_ok.mp hField).1
    have hMap := mapM_eq_map fun d hd => Declaration.resolve_eq_ok.mpr ⟨hHas d hd, rfl⟩
    obtain rfl := Except.ok.inj (hMap.symm.trans hEntries)
    exact ⟨hHas, (pure_eq_ok.mp h).symm⟩
  · rintro ⟨hHas, rfl⟩
    exact ⟨_, mapM_eq_map fun d hd => Declaration.resolve_eq_ok.mpr ⟨hHas d hd, rfl⟩, rfl⟩

theorem modelFields_eq_ok {r : Registry} {m : Model} {fields : Table TypeExpr} :
    modelFields r m = .ok fields ↔ (∀ d ∈ declarations m, r.has d.type = true) ∧
      fields = (surviving (declarations m)).mapValues (Declaration.typeIn r) :=
  resolveAll_eq_ok

/-- An entity has its fields once there are types for all that it declares. -/
theorem modelFields_of_has {r : Registry} {m : Model} (hId : r.has "ID" = true)
    (hProperties : ∀ p ∈ m.properties, r.has p.type = true)
    (hTargets : ∀ t ∈ m.relationships, r.has t.type = true) :
    modelFields r m = .ok ((surviving (declarations m)).mapValues (Declaration.typeIn r)) := by
  refine modelFields_eq_ok.mpr ⟨fun d hd => ?_, rfl⟩
  rcases mem_declarations.mp hd with rfl | ⟨p, hp, rfl⟩ | ⟨t, ht, rfl⟩
  · exact hId
  · exact hProperties p hp
  · exact hTargets t ht

theorem argumentFields_eq_ok {r : Registry} {as : List Argument} {fields : Table TypeExpr} :
    argumentFields r as = .ok fields ↔ (∀ a ∈ as, r.has a.type = true) ∧
      fields = (surviving (as.map .ofArgument)).mapValues (Declaration.typeIn r) := by
  refine resolveAll_eq_ok.trans (and_congr_left fun _ => ?_)
  simp [Declaration.ofArgument]

/-- Every resolved field has its type from one of the declarations. -/
theorem mem_resolved {r : Registry} {ds : List Declaration} {f : String × TypeExpr}
    (h : f ∈ (surviving ds).mapValues (Declaration.typeIn r)) :
    ∃ d ∈ ds, f.1 = d.name ∧ f.2 = d.typeIn r := by
  obtain ⟨e, he, rfl⟩ := List.mem_map.mp h
  obtain ⟨hd, hName⟩ := mem_of_mem_surviving he
  exact ⟨e.2, hd, hName, rfl⟩

/-- Under distinct names every declaration survives. -/
theorem mem_resolved_of_nodup {r : Registry} {ds : List Declaration}
    (hNodup : (ds.map (·.name)).Nodup) {d : Declaration} (hd : d ∈ ds) :
    (d.name, d.typeIn r) ∈ (surviving ds).mapValues (Declaration.typeIn r) := by
  have hAll : surviving ds = ds.map fun d => (d.name, d) := by
    apply Table.putAll_eq_append
    simpa [Function.comp_def] using hNodup
  refine List.mem_map.mpr ⟨(d.name, d), ?_, rfl⟩
  rw [hAll]
  exact List.mem_map_of_mem hd

/-! ## Types by name -/

namespace Registry

/-- A type by name is a scalar or the object type that the name leads to. -/
theorem find?_eq_some {r : Registry} {name : String} {key : TypeKey} :
    r.find? name = some key ↔ (name ∈ r.scalars ∧ scalarKey name = key) ∨
      (name ∉ r.scalars ∧
        ∃ slot, r.objects.get? name = some slot ∧ ⟨.entity slot, name⟩ = key) := by
  unfold find? objectKey?
  by_cases h : name ∈ r.scalars <;> simp [h]

theorem typeIn_key {r : Registry} {d : Declaration} (h : r.has d.type = true) :
    r.find? d.type = some (d.typeIn r).key := by
  obtain ⟨key, hKey⟩ := Option.isSome_iff_exists.mp h
  rw [Declaration.typeIn, hKey, TypeExpr.key_wrap]
  rfl

/-- A type is found under its own name. -/
theorem find?_name {r : Registry} {name : String} {key : TypeKey} (h : r.find? name = some key) :
    key.name = name := by
  rcases find?_eq_some.mp h with ⟨-, rfl⟩ | ⟨-, slot, -, rfl⟩ <;> rfl

/-- Declarations have the same type exactly if they declare the same. -/
theorem typeIn_inj {r : Registry} {d e : Declaration} (h : r.has d.type = true)
    (h' : r.has e.type = true) :
    d.typeIn r = e.typeIn r ↔ d.type = e.type ∧ d.list = e.list ∧ d.required = e.required := by
  have hKey := typeIn_key h
  have hKey' := typeIn_key h'
  rw [Declaration.typeIn, Declaration.typeIn, hKey, hKey', TypeExpr.wrap_named_inj]
  refine and_congr_left fun _ => ⟨fun hSame => ?_, fun hSame => ?_⟩
  · have hNames := congrArg TypeKey.name hSame
    rwa [Option.getD_some, Option.getD_some, find?_name hKey, find?_name hKey'] at hNames
  · rw [hSame] at hKey
    rw [Option.some.inj (hKey.symm.trans hKey')]

/-- Scalars come first. -/
theorem typeIn_scalar {r : Registry} {d : Declaration} (h : d.type ∈ r.scalars) :
    (d.typeIn r).key = scalarKey d.type := by
  have hFind : r.find? d.type = some (scalarKey d.type) := find?_eq_some.mpr (Or.inl ⟨h, rfl⟩)
  have hHas : r.has d.type = true := Option.isSome_iff_exists.mpr ⟨_, hFind⟩
  exact Option.some.inj ((typeIn_key hHas).symm.trans hFind)

theorem entityType_eq_ok {r : Registry} {name : String} {key : TypeKey} :
    r.entityType name = .ok key ↔
      ∃ slot, r.objects.get? name = some slot ∧ key = ⟨.entity slot, name⟩ := by
  unfold entityType objectKey?
  cases r.objects.get? name with
  | none => simp
  | some slot => simp [eq_comm]

end Registry

/-! ## Registrations -/

/-- A registration succeeds exactly if its checks do. -/
theorem addModel_eq_ok {r r' : Registry} {m : Model} :
    (addModel r m).value = .ok r' ↔
      checkModel r m = .ok () ∧ r' = (r.addModel m).insertObject m := by
  unfold addModel
  cases checkModel r m with
  | error failure => simp
  | ok u => simp [eq_comm]

theorem checkModel_eq_ok {r : Registry} {m : Model} :
    checkModel r m = .ok () ↔
      (∀ p ∈ m.properties, r.has p.type = true) ∧ checkTypeName m.name = .ok () := by
  have hProperty : ∀ p : Property,
      (∃ t, r.resolve p.type p.list p.required = .ok t) ↔ r.has p.type = true := by
    intro p
    unfold Registry.resolve Registry.get Registry.has
    cases r.find? p.type <;> simp [Except.map]
  unfold checkModel checkProperties
  rw [bind_eq_ok]
  constructor
  · rintro ⟨_, h, hName⟩
    obtain ⟨_, hAll, -⟩ := bind_eq_ok.mp h
    exact ⟨fun p hp => (hProperty p).mp (forIn_eq_ok.mp hAll p hp), hName⟩
  · rintro ⟨hAll, hName⟩
    refine ⟨(), bind_eq_ok.mpr ⟨PUnit.unit, forIn_eq_ok.mpr fun p hp => ?_, rfl⟩, hName⟩
    exact (hProperty p).mpr (hAll p hp)

/-! ## Coherent registries -/

namespace Registry

/-- A registry as it may have been before: with the same scalars, and with names that lead to object
types whose slots are still there. -/
structure Precedes (old r : Registry) : Prop where
  scalars : old.scalars = r.scalars
  object : ∀ {name slot}, old.objects.get? name = some slot →
    ∃ e, r.slots[slot]? = some e ∧ e.model.name = name

/-- What may have been before a registry may have been before any that continues its slots. -/
theorem Precedes.mono {old r r' : Registry} (h : old.Precedes r) (hScalars : r.scalars = r'.scalars)
    (hSlots : ∀ {slot : Nat} {e : Slot}, r.slots[slot]? = some e →
      ∃ e', r'.slots[slot]? = some e' ∧ e'.model = e.model) : old.Precedes r' where
  scalars := h.scalars.trans hScalars
  object := by
    intro name slot hObject
    obtain ⟨e, hSlot, hName⟩ := h.object hObject
    obtain ⟨e', hSlot', hModel⟩ := hSlots hSlot
    exact ⟨e', hSlot', hModel ▸ hName⟩

/-- Slots, names and entities of a registry belong together, and the fields kept in a slot were
resolved in a registry before it. -/
structure Coherent (r : Registry) : Prop where
  models : r.slots.map (·.model) = r.models
  nodup : r.objects.keys.Nodup
  object : ∀ {name slot}, r.objects.get? name = some slot →
    ∃ e, r.slots[slot]? = some e ∧ e.model.name = name
  registered : ∀ e ∈ r.slots, e.model.name ∈ r.objects.keys
  named : ∀ m ∈ r.models, checkTypeName m.name = .ok ()
  kept : ∀ e ∈ r.slots, ∀ fields, e.fields = some fields →
    ∃ old : Registry, old.Precedes r ∧ modelFields old e.model = .ok fields ∧
      ∀ k ∈ fields.keys, checkName k = .ok ()

namespace Coherent

theorem empty (scalars : List String) : Coherent { scalars } where
  models := rfl
  nodup := List.nodup_nil
  object := by simp [Table.get?]
  registered := by simp
  named := by simp
  kept := by simp

variable {r r' : Registry} {m : Model}

theorem precedes (h : r.Coherent) : r.Precedes r := ⟨rfl, h.object⟩

theorem mem_models (h : r.Coherent) {e : Slot} (he : e ∈ r.slots) : e.model ∈ r.models :=
  h.models ▸ List.mem_map_of_mem he

theorem slot_insert {slot : Nat} {e : Slot} (h : r.slots[slot]? = some e) :
    ((r.addModel m).insertObject m).slots[slot]? = some e := by
  obtain ⟨hLt, -⟩ := List.getElem?_eq_some_iff.mp h
  exact (List.getElem?_append_left hLt).trans h

theorem addModel (h : r.Coherent) (hName : checkTypeName m.name = .ok ()) :
    ((r.addModel m).insertObject m).Coherent where
  models := by simp [insertObject, Registry.addModel, h.models]
  nodup := Table.nodup_keys_put h.nodup _ _
  object := by
    intro name slot hObject
    simp only [insertObject, Registry.addModel, Table.get?_put] at hObject ⊢
    split at hObject
    · rename_i hNew
      obtain rfl := Option.some.inj hObject
      exact ⟨{ model := m }, by simp, hNew⟩
    · obtain ⟨e, hSlot, hOld⟩ := h.object hObject
      exact ⟨e, slot_insert hSlot, hOld⟩
  registered := by
    intro e he
    rw [insertObject, Table.mem_keys_put]
    rcases List.mem_append.mp he with he | he
    · exact Or.inr (h.registered e he)
    · obtain rfl := List.mem_singleton.mp he
      exact Or.inl rfl
  named := by
    intro m' hm'
    rcases List.mem_append.mp hm' with hm' | hm'
    · exact h.named m' hm'
    · obtain rfl := List.mem_singleton.mp hm'
      exact hName
  kept := by
    intro e he fields hFields
    rcases List.mem_append.mp he with he | he
    · obtain ⟨old, hOld, hRest⟩ := h.kept e he fields hFields
      exact ⟨old, hOld.mono rfl fun hSlot => ⟨_, slot_insert hSlot, rfl⟩, hRest⟩
    · obtain rfl := List.mem_singleton.mp he
      cases hFields

end Coherent

end Registry

/-! ## Kept fields -/

/-- Keeping the fields of a slot leaves its entity alone, and what it keeps newly is what the
registry gives. -/
theorem Sources.keepSlot_cases (s : Sources) (reached : List TypeKey) {slot : Nat} {e : Slot}
    (h : s.registry.slots[slot]? = some e) :
    s.keepSlot reached slot e = e ∨
      ∃ fields, s.keepSlot reached slot e = { e with fields := some fields } ∧
        modelFields s.registry e.model = .ok fields ∧ ∀ k ∈ fields.keys, checkName k = .ok () := by
  unfold Sources.keepSlot Sources.slotFields
  rw [h]
  split
  · obtain ⟨model, kept⟩ := e
    cases kept with
    | some fields => exact Or.inl rfl
    | none =>
      simp only
      split
      · rename_i fields hFields
        obtain ⟨found, hFound, hCheck⟩ := bind_eq_ok.mp hFields
        obtain ⟨rfl, hNames⟩ := checkFieldNames_eq_ok.mp hCheck
        exact Or.inr ⟨_, rfl, hFound, hNames⟩
      · exact Or.inl rfl
  · exact Or.inl rfl

theorem Sources.keep_slot (s : Sources) (reached : List TypeKey) {slot : Nat} {e : Slot}
    (h : (s.keep reached).slots[slot]? = some e) :
    ∃ e', s.registry.slots[slot]? = some e' ∧ e = s.keepSlot reached slot e' := by
  rw [Sources.keep, List.getElem?_mapIdx] at h
  obtain ⟨e', hSlot, rfl⟩ := Option.map_eq_some_iff.mp h
  exact ⟨e', hSlot, rfl⟩

theorem Sources.keepSlot_model (s : Sources) (reached : List TypeKey) (slot : Nat) (e : Slot) :
    (s.keepSlot reached slot e).model = e.model := by
  unfold Sources.keepSlot
  split
  · split <;> rfl
  · rfl

theorem Sources.slot_keep (s : Sources) (reached : List TypeKey) {slot : Nat} {e : Slot}
    (h : s.registry.slots[slot]? = some e) :
    (s.keep reached).slots[slot]? = some (s.keepSlot reached slot e) := by
  rw [Sources.keep, List.getElem?_mapIdx, h]
  rfl

/-- A registry stays coherent when it keeps the fields of the types reached. -/
theorem Registry.Coherent.keep {s : Sources} (h : s.registry.Coherent) (reached : List TypeKey) :
    (s.keep reached).Coherent where
  models := by
    refine (List.ext_getElem? fun slot => ?_).trans h.models
    rw [Sources.keep, List.getElem?_map, List.getElem?_map, List.getElem?_mapIdx, Option.map_map]
    exact congrArg (fun f => Option.map f s.registry.slots[slot]?)
      (funext fun e => s.keepSlot_model reached slot e)
  nodup := h.nodup
  object := by
    intro name slot hObject
    obtain ⟨e, hSlot, hName⟩ := h.object hObject
    exact ⟨_, s.slot_keep reached hSlot, (s.keepSlot_model reached slot e).symm ▸ hName⟩
  registered := by
    intro e he
    obtain ⟨slot, hSlot⟩ := List.mem_iff_getElem?.mp he
    obtain ⟨e', hSlot', rfl⟩ := s.keep_slot reached hSlot
    rw [s.keepSlot_model]
    exact h.registered e' (List.mem_of_getElem? hSlot')
  named := h.named
  kept := by
    intro e he fields hFields
    have hMono : ∀ old : Registry, old.Precedes s.registry → old.Precedes (s.keep reached) :=
      fun old hOld => hOld.mono rfl fun hSlot =>
        ⟨_, s.slot_keep reached hSlot, s.keepSlot_model reached _ _⟩
    obtain ⟨slot, hSlot⟩ := List.mem_iff_getElem?.mp he
    obtain ⟨e', hSlot', rfl⟩ := s.keep_slot reached hSlot
    rcases s.keepSlot_cases reached hSlot' with hSame | ⟨found, hNew, hFound, hNames⟩
    · rw [hSame] at hFields ⊢
      obtain ⟨old, hOld, hRest⟩ := h.kept e' (List.mem_of_getElem? hSlot') fields hFields
      exact ⟨old, hMono old hOld, hRest⟩
    · rw [hNew] at hFields ⊢
      obtain rfl := Option.some.inj hFields
      exact ⟨s.registry, hMono _ h.precedes, hFound, hNames⟩

/-! ## Registries without kept fields -/

/-- A registry without kept fields, as registrations alone leave it. -/
def Registry.forget (r : Registry) : Registry :=
  { r with slots := r.slots.map fun e => { model := e.model } }

/-- The entities registered one after another, up to the first that is refused. -/
def register (r : Registry) (models : List Model) : Except Failure Registry :=
  models.foldlM (fun r m => (addModel r m).value) r

/-- The last of several entities is registered after all others. -/
theorem register_concat_eq_ok {r r' : Registry} {ms : List Model} {m : Model} :
    register r (ms ++ [m]) = .ok r' ↔ ∃ before, register r ms = .ok before ∧
      checkModel before m = .ok () ∧ r' = (before.addModel m).insertObject m := by
  rw [register, List.foldlM_append, bind_eq_ok]
  simp only [List.foldlM_cons, List.foldlM_nil, bind_pure, addModel_eq_ok]
  rfl

namespace Registry

theorem forget_addModel (r : Registry) (m : Model) :
    ((r.addModel m).insertObject m).forget = (r.forget.addModel m).insertObject m := by
  simp [forget, insertObject, Registry.addModel]

/-- Registrations do not look at kept fields. -/
theorem addModel_forget {r r' : Registry} {m : Model} (h : (Schema.addModel r m).value = .ok r') :
    (Schema.addModel r.forget m).value = .ok r'.forget := by
  obtain ⟨hCheck, rfl⟩ := addModel_eq_ok.mp h
  exact addModel_eq_ok.mpr ⟨hCheck, forget_addModel r m⟩

theorem forget_keep (s : Sources) (reached : List TypeKey) :
    (s.keep reached).forget = s.registry.forget := by
  refine Registry.mk.injEq .. |>.mpr ⟨rfl, List.ext_getElem? fun slot => ?_, rfl, rfl⟩
  simp only [Sources.keep, List.getElem?_map, List.getElem?_mapIdx, Option.map_map]
  refine congrArg (fun f => Option.map f s.registry.slots[slot]?) (funext fun e => ?_)
  simp [Sources.keepSlot_model]

end Registry

/-- What registrations from an empty registry lead to. -/
theorem register_spec {scalars : List String} {models : List Model} {r : Registry}
    (h : register { scalars } models = .ok r) :
    r.Coherent ∧ r.scalars = scalars ∧ r.models = models ∧ r.forget = r := by
  induction models using List.reverseRecOn generalizing r with
  | nil =>
    obtain rfl := Except.ok.inj h
    exact ⟨.empty _, rfl, rfl, rfl⟩
  | append_singleton ms m ih =>
    obtain ⟨before, hBefore, hCheck, rfl⟩ := register_concat_eq_ok.mp h
    obtain ⟨hCoherent, hScalars, hModels, hForget⟩ := ih hBefore
    refine ⟨hCoherent.addModel (checkModel_eq_ok.mp hCheck).2, hScalars, ?_, ?_⟩
    · simp [Registry.insertObject, Registry.addModel, hModels]
    · rw [Registry.forget_addModel, hForget]

/-- The object types are kept under the names of the entities, each at its first registration. -/
theorem keys_register {scalars : List String} {models : List Model} {r : Registry}
    (h : register { scalars } models = .ok r) :
    r.objects.keys = firstOccurrences (models.map (·.name)) := by
  induction models using List.reverseRecOn generalizing r with
  | nil =>
    obtain rfl := Except.ok.inj h
    rfl
  | append_singleton ms m ih =>
    obtain ⟨before, hBefore, -, rfl⟩ := register_concat_eq_ok.mp h
    rw [List.map_append, List.map_singleton, firstOccurrences_append, ← ih hBefore]
    exact Table.keys_put ..

end EntityGraph.Schema
