import EntityGraph.Proofs.Schema.Registration

/-!
# What roots hold

The fields of a root are the operations of its kinds, each written under its own name in the order
of declaration; the last operation with a name is the one that the root field runs.

* `OperationTypes.make_eq_ok`: the types of one operation;
* `collectFrom_eq_ok`, `ofRoot_eq_ok`: the fields of a root as the writes of its operations;
* `ofRoot_mem`: where a field of a root comes from;
* `Exposes`, `mem_keys_ofRoot_iff`: the names of the fields of a root;
* `Prevails`, `mem_ofRoot_iff`: the fields of a root are the operations that prevail;
* `sources_eq_ok`: what a schema is built from.
-/

namespace EntityGraph.Schema

open Outcome

theorem argumentFields_keys {r : Registry} {as : List Argument} {fields : Table TypeExpr}
    (h : argumentFields r as = .ok fields) {k : String} :
    k ∈ fields.keys ↔ k ∈ as.map (·.name) := by
  obtain ⟨-, rfl⟩ := argumentFields_eq_ok.mp h
  rw [Table.keys_mapValues, surviving, Table.mem_keys_putAll]
  simp [Declaration.ofArgument]

theorem argumentFields_eq_nil {r : Registry} {as : List Argument} {fields : Table TypeExpr}
    (h : argumentFields r as = .ok fields) : fields = [] ↔ as = [] := by
  constructor
  · rintro rfl
    refine List.eq_nil_iff_forall_not_mem.mpr fun a ha => ?_
    have hKey := (argumentFields_keys h).mpr (List.mem_map_of_mem ha)
    cases hKey
  · rintro rfl
    exact (Except.ok.inj h).symm

namespace OperationTypes

/-- The types of an operation exist if its kind is known, its entity is registered and the types of
its arguments are. -/
theorem make_eq_ok {r : Registry} {m : Model} {o : Operation} {t : OperationTypes} :
    make r m o = .ok t ↔ ∃ kind slot args, o.kind? = .ok kind ∧
      r.objects.get? m.name = some slot ∧ argumentFields r o.arguments = .ok args ∧
      t = ⟨m.name, kind, Naming.rootField o.name m.name, shapeInput kind args,
        resultFields (kind = .list) ⟨.entity slot, m.name⟩⟩ := by
  unfold make inputFields
  rw [bind_eq_ok]
  constructor
  · rintro ⟨kind, hKind, h⟩
    obtain ⟨entity, hEntity, h⟩ := bind_eq_ok.mp h
    obtain ⟨input, hInput, h⟩ := bind_eq_ok.mp h
    obtain ⟨kind', hKind', hInput⟩ := bind_eq_ok.mp hInput
    obtain ⟨args, hArgs, hInput⟩ := bind_eq_ok.mp hInput
    obtain ⟨slot, hSlot, rfl⟩ := Registry.entityType_eq_ok.mp hEntity
    obtain rfl := Except.ok.inj (hKind.symm.trans hKind')
    obtain rfl := pure_eq_ok.mp hInput
    exact ⟨kind, slot, args, hKind, hSlot, hArgs, (pure_eq_ok.mp h).symm⟩
  · rintro ⟨kind, slot, args, hKind, hSlot, hArgs, rfl⟩
    refine ⟨kind, hKind, bind_eq_ok.mpr ⟨_, Registry.entityType_eq_ok.mpr ⟨slot, hSlot, rfl⟩, ?_⟩⟩
    refine bind_eq_ok.mpr ⟨shapeInput kind args, ?_, rfl⟩
    exact bind_eq_ok.mpr ⟨kind, hKind, bind_eq_ok.mpr ⟨args, hArgs, rfl⟩⟩

/-- The types of an operation carry its kind, its entity and its root field. -/
theorem make_origin {r : Registry} {m : Model} {o : Operation} {t : OperationTypes}
    (h : make r m o = .ok t) :
    o.kind? = .ok t.kind ∧ t.model = m.name ∧ t.field = Naming.rootField o.name m.name := by
  obtain ⟨kind, slot, args, hKind, -, -, rfl⟩ := make_eq_ok.mp h
  exact ⟨hKind, rfl, rfl⟩

end OperationTypes

namespace RootFields

/-- An operation of a known kind that is wanted. -/
def isWanted (wanted : Kind → Bool) (o : Operation) : Bool :=
  match o.kind? with
  | .ok kind => wanted kind
  | .error _ => false

/-- The types of operations as writes to the fields of a root. -/
def writes (ts : List OperationTypes) : List (String × OperationTypes) :=
  ts.map fun t => (t.field, t)

/-- A collection succeeds if every kind is known and the types of every wanted operation exist; then
it writes these in order. -/
theorem collectFrom_eq_ok {r : Registry} {wanted : Kind → Bool} {ops : List (Model × Operation)}
    {fields out : RootFields} {overwritten : List String} :
    (collectFrom r wanted fields overwritten ops).2 = .ok out ↔
      (∀ mo ∈ ops, ∃ kind, mo.2.kind? = .ok kind) ∧
        ∃ ts, (ops.filter fun mo => isWanted wanted mo.2).mapM
            (fun mo => OperationTypes.make r mo.1 mo.2) = .ok ts ∧
          out = Table.putAll fields (writes ts) := by
  induction ops generalizing fields overwritten with
  | nil =>
    simp only [collectFrom, List.not_mem_nil, false_implies, implies_true, true_and,
      List.filter_nil, List.mapM_nil, pure_eq_ok, exists_eq_left', writes, List.map_nil,
      Table.putAll_nil, Except.ok.injEq]
    exact eq_comm
  | cons mo ops ih =>
    obtain ⟨m, o⟩ := mo
    rw [List.forall_mem_cons, collectFrom]
    cases hKind : o.kind? with
    | error failure => simp
    | ok kind =>
      cases hWanted : wanted kind with
      | false =>
        have hSkip : isWanted wanted o = false := by simp [isWanted, hKind, hWanted]
        simp [ih, hSkip, hWanted]
      | true =>
        have hTake : isWanted wanted o = true := by simp [isWanted, hKind, hWanted]
        simp only [hWanted, Bool.not_true, Bool.false_eq_true, if_false, List.filter_cons, hTake,
          if_true, List.mapM_cons]
        cases hTypes : OperationTypes.make r m o with
        | error failure => simp [bind, Except.bind]
        | ok t =>
          obtain ⟨kind, slot, args, -, -, -, hField⟩ := OperationTypes.make_eq_ok.mp hTypes
          have hName : t.field = Naming.rootField o.name m.name := by rw [hField]
          simp only [ih, ← hName, Except.ok.injEq, exists_eq', true_and, bind_eq_ok]
          refine and_congr_right fun _ => ⟨?_, ?_⟩
          · rintro ⟨ts, hRest, rfl⟩
            exact ⟨t :: ts, ⟨t, rfl, ts, hRest, rfl⟩, rfl⟩
          · rintro ⟨_, ⟨_, rfl, ts, hRest, hEq⟩, rfl⟩
            obtain rfl := pure_eq_ok.mp hEq
            exact ⟨ts, hRest, rfl⟩

/-- The operations of a root with their entities, in the order of declaration. -/
def operationsOf (r : Registry) (root : Root) : List (Model × Operation) :=
  (operations r.models).filter fun mo => isWanted (fun kind => kind.root = root) mo.2

theorem ofRoot_eq_ok {r : Registry} {root : Root} {fields : RootFields} :
    (ofRoot r root).value = .ok fields ↔
      (∀ mo ∈ operations r.models, ∃ kind, mo.2.kind? = .ok kind) ∧
        ∃ ts, (operationsOf r root).mapM (fun mo => OperationTypes.make r mo.1 mo.2) = .ok ts ∧
          fields = Table.putAll [] (writes ts) :=
  collectFrom_eq_ok

theorem mem_operations {models : List Model} {m : Model} {o : Operation} :
    (m, o) ∈ operations models ↔ m ∈ models ∧ o ∈ m.operations := by
  simp only [operations, List.mem_flatMap, List.mem_map, Prod.mk.injEq]
  constructor
  · rintro ⟨m', hm, o', ho, rfl, rfl⟩
    exact ⟨hm, ho⟩
  · rintro ⟨hm, ho⟩
    exact ⟨m, hm, o, ho, rfl, rfl⟩

/-- A field of a root stands under its own name and runs an operation of the root. -/
theorem ofRoot_mem {r : Registry} {root : Root} {fields : RootFields}
    (h : (ofRoot r root).value = .ok fields) {f : String × OperationTypes} (hMem : f ∈ fields) :
    f.1 = f.2.field ∧ f.2.kind.root = root ∧
      ∃ m ∈ r.models, ∃ o ∈ m.operations, OperationTypes.make r m o = .ok f.2 := by
  obtain ⟨-, ts, hTypes, rfl⟩ := ofRoot_eq_ok.mp h
  rcases Table.mem_putAll hMem with hMem | hMem
  · simp at hMem
  obtain ⟨t, ht, rfl⟩ := List.mem_map.mp hMem
  obtain ⟨⟨m, o⟩, hOperation, hMake⟩ := mapM_mem hTypes ht
  obtain ⟨hOperation, hWanted⟩ := List.mem_filter.mp hOperation
  obtain ⟨hm, ho⟩ := mem_operations.mp hOperation
  obtain ⟨kind, slot, args, hKind, -, -, hEq⟩ := OperationTypes.make_eq_ok.mp hMake
  refine ⟨rfl, ?_, m, hm, o, ho, hMake⟩
  simpa [isWanted, hKind, hEq] using hWanted

theorem isWanted_iff {root : Root} {o : Operation} :
    isWanted (fun kind => kind.root = root) o = true ↔
      ∃ kind, o.kind? = .ok kind ∧ kind.root = root := by
  unfold isWanted
  cases o.kind? <;> simp

theorem mem_operationsOf {r : Registry} {root : Root} {m : Model} {o : Operation} :
    (m, o) ∈ operationsOf r root ↔ m ∈ r.models ∧ o ∈ m.operations ∧
      ∃ kind, o.kind? = .ok kind ∧ kind.root = root := by
  rw [operationsOf, List.mem_filter, mem_operations, and_assoc, isWanted_iff]

theorem ofRoot_nodup {r : Registry} {root : Root} {fields : RootFields}
    (h : (ofRoot r root).value = .ok fields) : fields.keys.Nodup := by
  obtain ⟨-, ts, -, rfl⟩ := ofRoot_eq_ok.mp h
  exact Table.nodup_keys_putAll (t := []) List.nodup_nil _

/-- A name that an operation of one of the entities gives a field of a root. -/
def Exposes (models : List Model) (root : Root) (name : String) : Prop :=
  ∃ m ∈ models, ∃ o ∈ m.operations, ∃ kind,
    o.kind? = .ok kind ∧ kind.root = root ∧ Naming.rootField o.name m.name = name

/-- The names of the fields of a root are those that its operations give. -/
theorem mem_keys_ofRoot_iff {r : Registry} {root : Root} {fields : RootFields}
    (h : (ofRoot r root).value = .ok fields) {name : String} :
    name ∈ fields.keys ↔ Exposes r.models root name := by
  constructor
  · intro hKey
    obtain ⟨f, hf, rfl⟩ := List.mem_map.mp hKey
    obtain ⟨hName, hRoot, m, hm, o, ho, hMake⟩ := ofRoot_mem h hf
    obtain ⟨hKind, -, hField⟩ := OperationTypes.make_origin hMake
    exact ⟨m, hm, o, ho, f.2.kind, hKind, hRoot, (hName.trans hField).symm⟩
  · rintro ⟨m, hm, o, ho, kind, hKind, hRoot, rfl⟩
    obtain ⟨-, ts, hTypes, rfl⟩ := ofRoot_eq_ok.mp h
    obtain ⟨t, ht, hMake⟩ := mem_mapM hTypes (mem_operationsOf.mpr ⟨hm, ho, kind, hKind, hRoot⟩)
    obtain ⟨-, -, hField⟩ := OperationTypes.make_origin hMake
    refine Table.mem_keys_putAll.mpr (Or.inr ?_)
    simpa [writes] using ⟨t, ht, hField⟩

/-! ## Operations that prevail -/

/-- An operation whose root field no later operation of its root replaces. -/
structure Prevails (models : List Model) (m : Model) (o : Operation) (kind : Kind) : Prop where
  known : o.kind? = .ok kind
  last : ∃ before later, operations models = before ++ (m, o) :: later ∧
    ∀ mo ∈ later, ∀ kind', mo.2.kind? = .ok kind' → kind'.root = kind.root →
      Naming.rootField mo.2.name mo.1.name ≠ Naming.rootField o.name m.name

theorem Prevails.mem {models : List Model} {m : Model} {o : Operation} {kind : Kind}
    (h : Prevails models m o kind) : m ∈ models ∧ o ∈ m.operations := by
  obtain ⟨before, later, hAll, -⟩ := h.last
  refine mem_operations.mp (hAll ▸ ?_)
  simp

/-- What an operation writes to a root, if it belongs there. -/
def write? (r : Registry) (root : Root) (mo : Model × Operation) :
    Option (String × OperationTypes) :=
  match OperationTypes.make r mo.1 mo.2 with
  | .ok t => if t.kind.root = root then some (t.field, t) else none
  | .error _ => none

theorem write?_eq_some {r : Registry} {root : Root} {mo : Model × Operation}
    {f : String × OperationTypes} :
    write? r root mo = some f ↔
      OperationTypes.make r mo.1 mo.2 = .ok f.2 ∧ f.2.kind.root = root ∧ f.1 = f.2.field := by
  obtain ⟨name, t⟩ := f
  unfold write?
  cases OperationTypes.make r mo.1 mo.2 with
  | error failure => simp
  | ok t' =>
    simp only [Option.ite_none_right_eq_some, Option.some.injEq, Prod.mk.injEq, Except.ok.injEq]
    constructor
    · rintro ⟨hRoot, rfl, rfl⟩
      exact ⟨rfl, hRoot, rfl⟩
    · rintro ⟨rfl, hRoot, rfl⟩
      exact ⟨hRoot, rfl, rfl⟩

theorem make_wanted {r : Registry} {root : Root} {mo : Model × Operation} {t : OperationTypes}
    (h : OperationTypes.make r mo.1 mo.2 = .ok t) :
    isWanted (fun kind => kind.root = root) mo.2 = true ↔ t.kind.root = root := by
  obtain ⟨kind, slot, args, hKind, -, -, rfl⟩ := OperationTypes.make_eq_ok.mp h
  simp [isWanted, hKind]

/-- The types of the wanted operations as writes are what the operations write, one after
another. -/
theorem writes_eq_filterMap {r : Registry} {root : Root} {ops : List (Model × Operation)}
    {ts : List OperationTypes}
    (h : (ops.filter fun mo => isWanted (fun kind => kind.root = root) mo.2).mapM
      (fun mo => OperationTypes.make r mo.1 mo.2) = .ok ts) :
    writes ts = ops.filterMap (write? r root) := by
  induction ops generalizing ts with
  | nil =>
    obtain rfl := pure_eq_ok.mp h
    rfl
  | cons mo ops ih =>
    rw [List.filter_cons] at h
    split at h
    · rename_i hWanted
      rw [List.mapM_cons] at h
      obtain ⟨t, hMake, h⟩ := bind_eq_ok.mp h
      obtain ⟨ts, hRest, hEq⟩ := bind_eq_ok.mp h
      obtain rfl := pure_eq_ok.mp hEq
      have hWrite : write? r root mo = some (t.field, t) :=
        write?_eq_some.mpr ⟨hMake, (make_wanted hMake).mp hWanted, rfl⟩
      rw [List.filterMap_cons_some hWrite, ← ih hRest]
      rfl
    · rename_i hUnwanted
      have hNone : write? r root mo = none := by
        refine Option.eq_none_iff_forall_ne_some.mpr fun f hWrite => ?_
        obtain ⟨hMake, hRoot, -⟩ := write?_eq_some.mp hWrite
        exact hUnwanted ((make_wanted hMake).mpr hRoot)
      rw [List.filterMap_cons_none hNone, ← ih h]

/-- The fields of a root are the operations that prevail. -/
theorem mem_ofRoot_iff {r : Registry} {root : Root} {fields : RootFields}
    (h : (ofRoot r root).value = .ok fields) {f : String × OperationTypes} :
    f ∈ fields ↔ f.1 = f.2.field ∧ f.2.kind.root = root ∧
      ∃ m o, Prevails r.models m o f.2.kind ∧ OperationTypes.make r m o = .ok f.2 := by
  obtain ⟨-, ts, hTypes, hFields⟩ := ofRoot_eq_ok.mp h
  rw [← Table.get?_eq_some_iff (t := fields) (ofRoot_nodup h), hFields,
    writes_eq_filterMap hTypes, Table.get?_putAll_eq_some, Table.isLastWrite_filterMap]
  simp only [Table.get?, reduceCtorEq, false_and, or_false]
  constructor
  · rintro ⟨before, ⟨m, o⟩, later, hAll, hWrite, hLast⟩
    obtain ⟨hMake, hRoot, hName⟩ := write?_eq_some.mp hWrite
    obtain ⟨hKind, -, hField⟩ := OperationTypes.make_origin hMake
    refine ⟨hName, hRoot, m, o, ⟨hKind, before, later, hAll, ?_⟩, hMake⟩
    intro mo hmo kind hKind' hSame
    have hWanted : mo ∈ operationsOf r root := by
      refine List.mem_filter.mpr ⟨hAll ▸ ?_, by simp [isWanted, hKind', hSame, hRoot]⟩
      simp [hmo]
    obtain ⟨t, -, hMake'⟩ := mem_mapM hTypes hWanted
    obtain ⟨hKind'', -, hField'⟩ := OperationTypes.make_origin hMake'
    obtain rfl := Except.ok.inj (hKind'.symm.trans hKind'')
    have hDiffers := hLast mo hmo (t.field, t) (write?_eq_some.mpr ⟨hMake', hSame.trans hRoot, rfl⟩)
    rwa [hName, hField, hField'] at hDiffers
  · rintro ⟨hName, hRoot, m, o, ⟨hKind, before, later, hAll, hLast⟩, hMake⟩
    obtain ⟨-, -, hField⟩ := OperationTypes.make_origin hMake
    refine ⟨before, (m, o), later, hAll, write?_eq_some.mpr ⟨hMake, hRoot, hName⟩, ?_⟩
    intro mo hmo w hWrite
    obtain ⟨hMake', hRoot', hName'⟩ := write?_eq_some.mp hWrite
    obtain ⟨hKind', -, hField'⟩ := OperationTypes.make_origin hMake'
    rw [hName, hName', hField, hField']
    exact hLast mo hmo _ hKind' (hRoot'.trans hRoot.symm)

end RootFields

/-! ## Sources -/

theorem checkReferences_eq_ok {r : Registry} :
    checkReferences r = .ok () ↔ ∀ m ∈ r.models, ∃ fields, modelFields r m = .ok fields := by
  unfold checkReferences
  rw [bind_eq_ok, ← forIn_eq_ok]
  constructor
  · rintro ⟨_, h, -⟩
    exact h
  · exact fun h => ⟨PUnit.unit, h, rfl⟩

theorem sources_eq_ok {r : Registry} {s : Sources} :
    (sources r).value = .ok s ↔ checkReferences r = .ok () ∧ s.registry = r ∧
      (RootFields.ofRoot r .query).value = .ok s.query ∧
      (RootFields.ofRoot r .mutation).value = .ok s.mutation := by
  obtain ⟨registry, query, mutation⟩ := s
  unfold sources
  cases checkReferences r with
  | error failure => simp
  | ok u =>
    simp only [Logged.value_bind, true_and]
    cases (RootFields.ofRoot r .query).value with
    | error failure => simp
    | ok q =>
      simp only [Logged.value_bind]
      cases (RootFields.ofRoot r .mutation).value with
      | error failure => simp
      | ok w =>
        simp only [Logged.value_pure, Except.ok.injEq, Sources.mk.injEq]
        exact and_congr_left fun _ => eq_comm

end EntityGraph.Schema
