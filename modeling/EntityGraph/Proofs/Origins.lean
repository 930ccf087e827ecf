import EntityGraph.Document
import EntityGraph.Proofs.Naming
import EntityGraph.Proofs.Schema.RootField

/-!
# Distinct names of operations

Where an entity is determined by its name, and an operation by its entity and its kind, the derived
names determine the operations: no two of them share the name of an input type, of a result type or
of a block.  The entities may be named like a label, or like a label followed by another entity.

* `Model.kinds`: the kinds of an entity's operations;
* `operationTypes`, `operationBlocks`: what is generated for the operations of some entities;
* `operations_apart`: an entity's name and a kind belong to one operation;
* `names_unambiguous`: derived names have one origin, and those of operations are distinct.
-/

namespace EntityGraph

open Outcome Naming Schema

/-- The kinds of an entity's operations, as far as they are known. -/
def Model.kinds (m : Model) : List Kind := m.operations.filterMap fun o => o.kind?.toOption

/-- The types of the operations of some entities, as far as they can be built. -/
def operationTypes (r : Registry) (models : List Model) : List OperationTypes :=
  (RootFields.operations models).filterMap fun mo => (OperationTypes.make r mo.1 mo.2).toOption

/-- The names of the two types of an operation. -/
def Schema.OperationTypes.names (t : OperationTypes) : List String :=
  [t.inputKey.name, t.resultKey.name]

/-- The blocks of the operations of some entities, as far as they can be built. -/
def operationBlocks (models : List Model) : List Block :=
  (RootFields.operations models).filterMap fun mo => (Block.ofOperation mo.1 mo.2).toOption

/-- Two operations do not belong to entities of one name and have one kind. -/
def Apart (mo mo' : Model × Operation) : Prop :=
  ∀ kind, mo.2.kind? = .ok kind → mo'.2.kind? = .ok kind → mo.1.name ≠ mo'.1.name

section

variable {models : List Model}

theorem mem_toOption {ε α : Type} {x : Except ε α} {a : α} : x.toOption = some a ↔ x = .ok a := by
  cases x <;> simp [Except.toOption]

/-- Operations stand apart if the names of the entities differ, and the kinds within each of them. -/
theorem operations_apart (hNames : (models.map (·.name)).Nodup)
    (hKinds : ∀ m ∈ models, m.kinds.Nodup) : (RootFields.operations models).Pairwise Apart := by
  refine List.pairwise_flatMap.mpr ⟨fun m hm => ?_, ?_⟩
  · have hWithin := List.pairwise_filterMap.mp (hKinds m hm)
    refine List.pairwise_map.mpr (hWithin.imp fun hNe kind hKind hKind' => ?_)
    exact absurd rfl (hNe kind (mem_toOption.mpr hKind) kind (mem_toOption.mpr hKind'))
  · refine (List.pairwise_map.mp hNames).imp fun {m m'} hNe mo hmo mo' hmo' _ _ _ => ?_
    obtain ⟨o, -, rfl⟩ := List.mem_map.mp hmo
    obtain ⟨o', -, rfl⟩ := List.mem_map.mp hmo'
    exact hNe

theorem operationTypes_nodup (h : (RootFields.operations models).Pairwise Apart) (r : Registry) :
    ((operationTypes r models).flatMap OperationTypes.names).Nodup := by
  refine List.nodup_flatMap.mpr ⟨fun t _ => ?_, List.pairwise_filterMap.mpr (h.imp ?_)⟩
  · have hNe : t.inputKey.name ≠ t.resultKey.name := inputType_ne_resultType
    simpa [OperationTypes.names] using hNe
  · intro mo mo' hApart t ht t' ht' name hName hName'
    obtain ⟨kind, _, _, hKind, -, -, rfl⟩ := OperationTypes.make_eq_ok.mp (mem_toOption.mp ht)
    obtain ⟨kind', _, _, hKind', -, -, rfl⟩ := OperationTypes.make_eq_ok.mp (mem_toOption.mp ht')
    have hOrigin : ¬ (mo.1.name = mo'.1.name ∧ kind = kind') := by
      rintro ⟨hModel, rfl⟩
      exact hApart kind hKind hKind' hModel
    simp only [OperationTypes.names, List.mem_cons, List.not_mem_nil, or_false] at hName hName'
    rcases hName with rfl | rfl <;> rcases hName' with hSame | hSame
    · exact hOrigin (inputType_inj hSame)
    · exact inputType_ne_resultType hSame
    · exact inputType_ne_resultType hSame.symm
    · exact hOrigin (resultType_inj hSame)

theorem operationBlocks_nodup (h : (RootFields.operations models).Pairwise Apart) :
    ((operationBlocks models).map (·.name)).Nodup := by
  refine List.pairwise_map.mpr (List.pairwise_filterMap.mpr (h.imp ?_))
  intro mo mo' hApart b hb b' hb' hSame
  obtain ⟨kind, hKind, hBlock⟩ := bind_eq_ok.mp (mem_toOption.mp hb)
  obtain ⟨kind', hKind', hBlock'⟩ := bind_eq_ok.mp (mem_toOption.mp hb')
  obtain rfl := Except.ok.inj hBlock
  obtain rfl := Except.ok.inj hBlock'
  obtain ⟨hModel, rfl⟩ := block_inj hSame
  exact hApart kind hKind hKind' hModel

end

/-- A derived name has one origin, and no input type is named like a result type.  With distinct
entities, and at most one operation of a kind in each of them, no two operations have a type or a
block of one name. -/
theorem names_unambiguous :
    (∀ m m' k k', inputType m k = inputType m' k' → m = m' ∧ k = k') ∧
    (∀ m m' k k', resultType m k = resultType m' k' → m = m' ∧ k = k') ∧
    (∀ m m' k k', block m k = block m' k' → m = m' ∧ k = k') ∧
    (∀ m m' k k', inputType m k ≠ resultType m' k') ∧
    (∀ m m', fragment m = fragment m' → m = m') ∧
    ∀ models : List Model, (models.map (·.name)).Nodup → (∀ m ∈ models, m.kinds.Nodup) →
      (∀ r, ((operationTypes r models).flatMap OperationTypes.names).Nodup) ∧
        ((operationBlocks models).map (·.name)).Nodup := by
  refine ⟨fun _ _ _ _ => inputType_inj, fun _ _ _ _ => resultType_inj, fun _ _ _ _ => block_inj,
    fun _ _ _ _ => inputType_ne_resultType, fun _ _ => fragment_inj,
    fun models hNames hKinds => ?_⟩
  have hApart := operations_apart hNames hKinds
  exact ⟨operationTypes_nodup hApart, operationBlocks_nodup hApart⟩

/-- Entities that are named like one of them with a label before it or behind it. -/
def lookalikes : List Model :=
  [⟨"Book", [], [], [⟨"get", "Show", [], []⟩, ⟨"all", "List", [], []⟩]⟩,
    ⟨"BookShow", [], [], [⟨"get", "Show", [], []⟩, ⟨"all", "List", [], []⟩]⟩,
    ⟨"ShowBook", [], [], [⟨"get", "Show", [], []⟩, ⟨"make", "Create", [], []⟩]⟩]

/-- Types and blocks are generated for each of their operations, and no name occurs twice. -/
theorem lookalikes_unambiguous :
    ((lookalikes.map (·.name)).Nodup ∧ ∀ m ∈ lookalikes, m.kinds.Nodup) ∧
    ((operationTypes (lookalikes.foldl Registry.insertObject {}) lookalikes).length = 6 ∧
      (operationBlocks lookalikes).map (·.name) = ["ShowBook", "ListBook", "ShowBookShow",
        "ListBookShow", "ShowShowBook", "CreateShowBook"]) ∧
    (∀ r, ((operationTypes r lookalikes).flatMap OperationTypes.names).Nodup) ∧
      ((operationBlocks lookalikes).map (·.name)).Nodup := by
  have hNames : (lookalikes.map (·.name)).Nodup := by decide
  have hKinds : ∀ m ∈ lookalikes, m.kinds.Nodup := by decide
  obtain ⟨-, -, -, -, -, hOperations⟩ := names_unambiguous
  exact ⟨⟨hNames, hKinds⟩, by decide, hOperations lookalikes hNames hKinds⟩

end EntityGraph
