import EntityGraph.Proofs.Naming
import EntityGraph.Proofs.Schema.Contents

/-!
# Types without fields

A schema that is loaded as it is needs a field in each of its object types and input types.  Most
types have one by their shape: an entity has its identifier, a result has what it gives, and the
input types of four of the five kinds of operations have an identifier or a way to sort.  What is
left are a root that no operation belongs to, and the input type of a `Create` operation that takes
no argument.

* `TypeDef.isFieldless`: a type without fields;
* `shapeInput_eq_nil`: the only shape of input that may be empty;
* `Lacking`: the names of the types that lack a field, read off the entities;
* `Makes.isFieldless_iff`: they are the types without fields of every schema;
* `nothing_lacking_iff`: when there are none of them.
-/

namespace EntityGraph.Schema

open Outcome

/-- An object type or an input type without fields. -/
def TypeDef.isFieldless : TypeDef → Bool
  | .scalar => false
  | .object fields => fields.isEmpty
  | .input fields => fields.isEmpty

/-! ## Shapes -/

theorem keys_ne_nil {α : Type} {t : Table α} {name : String} (h : name ∈ t.keys) : t ≠ [] := by
  rintro rfl
  cases h

theorem modelFields_ne_nil {r : Registry} {m : Model} {fields : Table TypeExpr}
    (h : modelFields r m = .ok fields) : fields ≠ [] := by
  obtain ⟨-, rfl⟩ := modelFields_eq_ok.mp h
  have hKey : "id" ∈ Table.keys ((surviving (declarations m)).mapValues (Declaration.typeIn r)) := by
    rw [Table.keys_mapValues, surviving, Table.mem_keys_putAll]
    simp [declarations]
  exact keys_ne_nil hKey

theorem resultFields_ne_nil (paged : Bool) (entity : TypeKey) : resultFields paged entity ≠ [] := by
  cases paged <;> simp [resultFields]

/-- Only the input of a `Create` operation may be empty, and only without arguments. -/
theorem shapeInput_eq_nil {kind : Kind} {args : Table TypeExpr} :
    shapeInput kind args = [] ↔ kind = .create ∧ args = [] := by
  have hGeneric : genericFields args ≠ [] := by
    unfold genericFields
    split
    · simp
    · exact keys_ne_nil (Table.mem_keys_putAll.mpr (Or.inl (List.mem_singleton.mpr rfl)))
  cases kind with
  | view => simpa [shapeInput] using hGeneric
  | remove => simpa [shapeInput] using hGeneric
  | create => simp [shapeInput]
  | list =>
    have hSort := List.ne_nil_of_mem (mem_shapeInput_list args).1
    simpa using hSort
  | update =>
    have hKey : "id" ∈ (shapeInput .update args).keys :=
      Table.mem_keys_putAll.mpr (Or.inl (List.mem_singleton.mpr rfl))
    simpa using keys_ne_nil hKey

/-- The input types without fields are those of `Create` operations without arguments. -/
theorem input_eq_nil_iff {r : Registry} {m : Model} {o : Operation} {t : OperationTypes}
    (hMake : OperationTypes.make r m o = .ok t) :
    t.input = [] ↔ t.kind = .create ∧ o.arguments = [] := by
  obtain ⟨kind, slot, args, -, -, hArgs, rfl⟩ := OperationTypes.make_eq_ok.mp hMake
  rw [shapeInput_eq_nil, argumentFields_eq_nil hArgs]

/-! ## The types that lack a field -/

/-- The names of the types that lack a field: a root without operations, and the input type of an
operation that creates, prevails and takes no argument. -/
inductive Lacking (models : List Model) : String → Prop where
  | root (r : Root)
      (h : ∀ m ∈ models, ∀ o ∈ m.operations, ∀ kind, o.kind? = .ok kind → kind.root ≠ r) :
      Lacking models r.typeName
  | input {m : Model} {o : Operation} (hPrevails : RootFields.Prevails models m o .create)
      (hNone : o.arguments = []) : Lacking models (Naming.inputType m.name .create)

namespace Sources

variable {s : Sources}

namespace Grounded

/-- An operation that prevails has a root field. -/
theorem field_of_prevails (h : s.Grounded) {m : Model} {o : Operation} {kind : Kind}
    (hPrevails : RootFields.Prevails s.registry.models m o kind) :
    ∃ f ∈ s.fieldsOf kind.root, OperationTypes.make s.registry m o = .ok f.2 := by
  obtain ⟨-, ts, hTypes, -⟩ := RootFields.ofRoot_eq_ok.mp (h.fields kind.root)
  have hWanted : (m, o) ∈ RootFields.operationsOf s.registry kind.root :=
    RootFields.mem_operationsOf.mpr
      ⟨hPrevails.mem.1, hPrevails.mem.2, kind, hPrevails.known, rfl⟩
  obtain ⟨t, -, hMake⟩ := mem_mapM hTypes hWanted
  have hKind : t.kind = kind :=
    Except.ok.inj ((OperationTypes.make_origin hMake).1.symm.trans hPrevails.known)
  subst hKind
  exact ⟨(t.field, t), (RootFields.mem_ofRoot_iff (h.fields _)).mpr ⟨rfl, rfl, m, o, hPrevails,
    hMake⟩, hMake⟩

/-- The first operation of a root gives it a field. -/
theorem fieldsOf_eq_nil (h : s.Grounded) {r : Root} : s.fieldsOf r = [] ↔
    ∀ m ∈ s.registry.models, ∀ o ∈ m.operations, ∀ kind, o.kind? = .ok kind → kind.root ≠ r := by
  constructor
  · rintro hNone m hm o ho kind hKind hRoot
    have hKey := (RootFields.mem_keys_ofRoot_iff (h.fields r)).mpr
      ⟨m, hm, o, ho, kind, hKind, hRoot, rfl⟩
    exact keys_ne_nil hKey hNone
  · intro hNone
    refine List.eq_nil_iff_forall_not_mem.mpr fun f hf => ?_
    obtain ⟨m, hm, o, ho, kind, hKind, hRoot, -⟩ :=
      (RootFields.mem_keys_ofRoot_iff (h.fields r)).mp (Table.mem_keys_of_mem hf)
    exact hNone m hm o ho kind hKind hRoot

/-- A type without fields is a root or the input type of a root field. -/
theorem definition_isFieldless_iff (h : s.Grounded) {k : TypeKey} (hKnown : s.Known k)
    {d : TypeDef} (hDef : s.definition k = .ok d) : d.isFieldless = true ↔
      (∃ r, k = rootKey r ∧ s.fieldsOf r = []) ∨
        ∃ r, ∃ f ∈ s.fieldsOf r, k = f.2.inputKey ∧ f.2.input = [] := by
  constructor
  · intro hEmpty
    cases hKnown with
    | scalar =>
      obtain rfl := Except.ok.inj hDef
      cases hEmpty
    | introspection =>
      obtain rfl := Except.ok.inj hDef
      cases hEmpty
    | sort =>
      obtain rfl := Except.ok.inj hDef
      cases hEmpty
    | paginate =>
      obtain rfl := Except.ok.inj hDef
      cases hEmpty
    | entity hSlot =>
      obtain ⟨fields, hFields, rfl⟩ := definition_entity_eq_ok.mp hDef
      obtain ⟨old, -, hModel, -⟩ := h.slotFields_eq_ok hSlot hFields
      have hNone : fields = [] := by simpa [TypeDef.isFieldless, plainFields] using hEmpty
      exact absurd hNone (modelFields_ne_nil hModel)
    | root r =>
      obtain ⟨-, rfl⟩ := definition_root_eq_ok.mp hDef
      exact Or.inl ⟨r, rfl, by simpa [TypeDef.isFieldless] using hEmpty⟩
    | @input r f hf =>
      obtain ⟨-, rfl⟩ := (h.definition_input_eq_ok hf).mp hDef
      exact Or.inr ⟨r, f, hf, rfl, by simpa [TypeDef.isFieldless] using hEmpty⟩
    | @result r f hf =>
      obtain rfl := Except.ok.inj ((h.definition_result hf).symm.trans hDef)
      obtain ⟨-, -, m, -, o, -, hMake⟩ := RootFields.ofRoot_mem (h.fields r) hf
      obtain ⟨kind, slot, args, -, -, -, hTypes⟩ := OperationTypes.make_eq_ok.mp hMake
      have hNone : f.2.result = [] := by simpa [TypeDef.isFieldless, plainFields] using hEmpty
      rw [hTypes] at hNone
      exact absurd hNone (resultFields_ne_nil _ _)
  · rintro (⟨r, rfl, hNone⟩ | ⟨r, f, hf, rfl, hNone⟩)
    · obtain ⟨-, rfl⟩ := definition_root_eq_ok.mp hDef
      simp [TypeDef.isFieldless, hNone]
    · obtain ⟨-, rfl⟩ := (h.definition_input_eq_ok hf).mp hDef
      simp [TypeDef.isFieldless, hNone]

end Grounded

namespace Makes

variable {schema : Schema}

theorem input_mem (hMakes : s.Makes schema) {r : Root} {f : String × OperationTypes}
    (hf : f ∈ s.fieldsOf r) : f.2.inputKey ∈ schema.types.map (·.1) := by
  have hRoot := hMakes.complete.root_mem r
  obtain ⟨d, hDef⟩ := hMakes.complete.defined _ hRoot
  obtain ⟨hNames, -⟩ := definition_root_eq_ok.mp hDef
  exact hMakes.complete.closed _ hRoot _ (refers_root.mpr ⟨hNames, f, hf, Or.inr rfl⟩)

/-- A type that lacks a field by its name is in the schema without fields. -/
theorem lacking_mem (hMakes : s.Makes schema) (h : s.Grounded) {name : String}
    (hLacking : Lacking s.registry.models name) :
    ∃ t ∈ schema.types, t.1.name = name ∧ t.2.isFieldless = true := by
  cases hLacking with
  | root r hNone =>
    obtain ⟨t, ht, hKey⟩ := List.mem_map.mp (hMakes.complete.root_mem r)
    have hKnown : s.Known t.1 := hKey ▸ .root r
    refine ⟨t, ht, by rw [hKey]; rfl, ?_⟩
    rw [h.definition_isFieldless_iff hKnown (hMakes.defined t ht)]
    exact Or.inl ⟨r, hKey, h.fieldsOf_eq_nil.mpr hNone⟩
  | @input m o hPrevails hNone =>
    obtain ⟨f, hf, hMake⟩ := h.field_of_prevails hPrevails
    obtain ⟨hKind, hModel, -⟩ := OperationTypes.make_origin hMake
    have hCreate : f.2.kind = .create := Except.ok.inj (hKind.symm.trans hPrevails.known)
    obtain ⟨t, ht, hKey⟩ := List.mem_map.mp (hMakes.input_mem hf)
    have hKnown : s.Known t.1 := hKey ▸ .input hf
    refine ⟨t, ht, by rw [hKey, OperationTypes.inputKey, hModel, hCreate], ?_⟩
    rw [h.definition_isFieldless_iff hKnown (hMakes.defined t ht)]
    exact Or.inr ⟨_, f, hf, hKey, (input_eq_nil_iff hMake).mpr ⟨hCreate, hNone⟩⟩

/-- The types without fields of a schema are those that lack a field by their names. -/
theorem isFieldless_iff (hMakes : s.Makes schema) (h : s.Grounded) {name : String} :
    (∃ t ∈ schema.types, t.1.name = name ∧ t.2.isFieldless = true) ↔
      Lacking s.registry.models name := by
  refine ⟨?_, hMakes.lacking_mem h⟩
  rintro ⟨t, ht, rfl, hEmpty⟩
  have hKnown := hMakes.complete.known _ (List.mem_map_of_mem ht)
  rcases (h.definition_isFieldless_iff hKnown (hMakes.defined t ht)).mp hEmpty with
    ⟨r, hRoot, hNone⟩ | ⟨r, f, hf, hInput, hNone⟩
  · rw [hRoot]
    exact .root r (h.fieldsOf_eq_nil.mp hNone)
  · obtain ⟨-, -, m, o, hPrevails, hMake⟩ := (RootFields.mem_ofRoot_iff (h.fields r)).mp hf
    obtain ⟨-, hModel, -⟩ := OperationTypes.make_origin hMake
    obtain ⟨hCreate, hArguments⟩ := (input_eq_nil_iff hMake).mp hNone
    rw [hInput, OperationTypes.inputKey, hModel, hCreate]
    exact .input (hCreate ▸ hPrevails) hArguments

end Makes

end Sources

/-- No type lacks a field exactly if each root has an operation and every operation that creates and
prevails takes an argument. -/
theorem nothing_lacking_iff {models : List Model} :
    (∀ name, ¬ Lacking models name) ↔
      (∀ r, ∃ m ∈ models, ∃ o ∈ m.operations, ∃ kind, o.kind? = .ok kind ∧ kind.root = r) ∧
        ∀ m o, RootFields.Prevails models m o .create → o.arguments ≠ [] := by
  constructor
  · intro hNone
    refine ⟨fun r => ?_, fun m o hPrevails hArguments => hNone _ (.input hPrevails hArguments)⟩
    by_contra hEmpty
    refine hNone _ (.root r fun m hm o ho kind hKind hRoot => hEmpty ?_)
    exact ⟨m, hm, o, ho, kind, hKind, hRoot⟩
  · rintro ⟨hRoots, hInputs⟩ name hLacking
    cases hLacking with
    | root r hNone =>
      obtain ⟨m, hm, o, ho, kind, hKind, hRoot⟩ := hRoots r
      exact hNone m hm o ho kind hKind hRoot
    | input hPrevails hNone => exact hInputs _ _ hPrevails hNone

end EntityGraph.Schema
