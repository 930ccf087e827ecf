import EntityGraph.Audit
import EntityGraph.Proofs.Outcome
import EntityGraph.Proofs.Table

/-!
# What an audit without findings means

An audit that reports neither an error nor a warning has found all names apart that the checks
compare, and a target for every relationship.

* `repeated_eq_nil`, `repeatedKinds_eq_nil`: nothing is repeated in a list without duplicates;
* `Writers.Grouped`, `mem_foldl_add`: the entities that write each root field;
* `Audit.Clean`: the definitions of such an audit;
* `clean_of_full`: an audit without errors and warnings is clean.
-/

namespace EntityGraph

open Outcome

namespace Audit

/-- No name is repeated exactly if all names are different. -/
theorem repeated_eq_nil {names : List String} : repeated names = [] ↔ names.Nodup := by
  rw [repeated, List.filter_eq_nil_iff, List.nodup_iff_count_le_one]
  constructor
  · intro h name
    by_cases hMem : name ∈ names
    · have hCount := h name (mem_firstOccurrences.mpr hMem)
      simpa using hCount
    · rw [List.count_eq_zero_of_not_mem hMem]
      exact Nat.zero_le 1
  · intro h name _
    have hCount := h name
    simpa using hCount

theorem repeatedKinds_eq_nil {kinds : List Kind} : repeatedKinds kinds = [] ↔ kinds.Nodup := by
  rw [repeatedKinds, List.filter_eq_nil_iff, List.nodup_iff_count_le_one]
  constructor
  · intro h kind
    by_cases hMem : kind ∈ kinds
    · have hCount := h kind (List.mem_eraseDups.mpr hMem)
      simpa using hCount
    · rw [List.count_eq_zero_of_not_mem hMem]
      exact Nat.zero_le 1
  · intro h kind _
    have hCount := h kind
    simpa using hCount

/-! ## Root fields -/

namespace Writers

/-- The entities that write a root field, in the order of their writes. -/
def namesAt (key : Root × String) : Writers → List String
  | [] => []
  | (k, ms) :: rest => if k = key then ms else namesAt key rest

theorem namesAt_add (key key' : Root × String) (model : String) (ws : Writers) :
    namesAt key (add key' model ws) =
      if key' = key then namesAt key ws ++ [model] else namesAt key ws := by
  induction ws with
  | nil => by_cases h : key' = key <;> simp [add, namesAt, h]
  | cons w rest ih =>
    obtain ⟨k, ms⟩ := w
    by_cases hk : k = key'
    · subst hk
      by_cases h : k = key <;> simp [add, namesAt, h]
    · by_cases h : k = key
      · subst h
        have h' : ¬ key' = k := fun he => hk he.symm
        simp [add, namesAt, hk, h']
      · simp [add, namesAt, hk, h, ih]

theorem namesAt_foldl (key : Root × String) (writes : List ((Root × String) × String))
    (ws : Writers) : namesAt key (writes.foldl (fun ws w => add w.1 w.2 ws) ws) =
      namesAt key ws ++ (writes.filter fun w => w.1 = key).map (·.2) := by
  induction writes generalizing ws with
  | nil => simp
  | cons w writes ih =>
    rw [List.foldl_cons, ih, namesAt_add]
    by_cases h : w.1 = key
    · simp [h]
    · simp [h]

theorem keys_add (key : Root × String) (model : String) (ws : Writers) :
    (add key model ws).map (·.1) =
      if key ∈ ws.map (·.1) then ws.map (·.1) else ws.map (·.1) ++ [key] := by
  induction ws with
  | nil => rfl
  | cons w rest ih =>
    obtain ⟨k, ms⟩ := w
    by_cases hk : k = key
    · simp [add, hk]
    · have hk' : ¬ key = k := fun he => hk he.symm
      simp only [add, hk, if_false, List.map_cons, ih, List.mem_cons, hk', false_or]
      split <;> rfl

/-- Every root field that is written has one entry. -/
structure Grouped (ws : Writers) : Prop where
  nodup : (ws.map (·.1)).Nodup
  written : ∀ w ∈ ws, w.2 ≠ []

namespace Grouped

variable {ws : Writers}

theorem add (h : Grouped ws) (key : Root × String) (model : String) :
    Grouped (ws.add key model) := by
  refine ⟨?_, ?_⟩
  · rw [keys_add]
    split
    · exact h.nodup
    · rename_i hFresh
      rw [← List.concat_eq_append]
      exact h.nodup.concat hFresh
  · replace h := h.written
    induction ws with
    | nil => simp [Writers.add]
    | cons w rest ih =>
      obtain ⟨k, ms⟩ := w
      obtain ⟨hSome, hRest⟩ := List.forall_mem_cons.mp h
      rw [Writers.add]
      split
      · exact List.forall_mem_cons.mpr ⟨by simp, hRest⟩
      · exact List.forall_mem_cons.mpr ⟨hSome, ih hRest⟩

theorem foldl (h : Grouped ws) (writes : List ((Root × String) × String)) :
    Grouped (writes.foldl (fun ws w => Writers.add w.1 w.2 ws) ws) := by
  induction writes generalizing ws with
  | nil => exact h
  | cons w writes ih => exact ih (h.add w.1 w.2)

/-- The entries are the root fields that are written at all. -/
theorem mem_iff (h : Grouped ws) {key : Root × String} {names : List String} :
    (key, names) ∈ ws ↔ names = namesAt key ws ∧ names ≠ [] := by
  induction ws with
  | nil => simp [namesAt]
  | cons w rest ih =>
    obtain ⟨k, ms⟩ := w
    obtain ⟨hFresh, hNodup⟩ := List.nodup_cons.mp h.nodup
    obtain ⟨hSome, hWritten⟩ := List.forall_mem_cons.mp h.written
    rw [List.mem_cons, namesAt, Prod.mk.injEq]
    by_cases hk : k = key
    · subst hk
      have hOnce : (k, names) ∉ rest := fun hMem => hFresh (List.mem_map.mpr ⟨_, hMem, rfl⟩)
      simp only [true_and, hOnce, or_false, if_true]
      exact ⟨fun hEq => ⟨hEq, hEq ▸ hSome⟩, fun hEq => hEq.1⟩
    · have hk' : ¬ key = k := fun he => hk he.symm
      rw [if_neg hk, ← ih ⟨hNodup, hWritten⟩]
      simp [hk']

end Grouped

end Writers

theorem grouped_foldl (writes : List ((Root × String) × String)) :
    Writers.Grouped (writes.foldl (fun ws w => Writers.add w.1 w.2 ws) []) := by
  have hEmpty : Writers.Grouped [] := ⟨List.nodup_nil, by simp⟩
  exact hEmpty.foldl writes

/-- The entries of root fields after some writes. -/
theorem mem_foldl_add {writes : List ((Root × String) × String)} {key : Root × String}
    {names : List String} :
    (key, names) ∈ writes.foldl (fun ws w => Writers.add w.1 w.2 ws) [] ↔
      names = (writes.filter fun w => w.1 = key).map (·.2) ∧ names ≠ [] := by
  rw [(grouped_foldl writes).mem_iff, Writers.namesAt_foldl]
  rfl

/-- Root fields that are written once each. -/
theorem rootFields_eq_nil {models : List Model} (h : rootFields models = .ok []) :
    ∃ writes, models.mapM writesOf = .ok writes ∧ (writes.flatten.map (·.1)).Nodup := by
  obtain ⟨ws, hWriters, hConcerns⟩ := bind_eq_ok.mp h
  obtain ⟨writes, hWrites, hFold⟩ := bind_eq_ok.mp hWriters
  obtain rfl := pure_eq_ok.mp hFold
  refine ⟨writes, hWrites, List.nodup_iff_count_le_one.mpr fun key => ?_⟩
  have hShort := List.filterMap_eq_nil_iff.mp (pure_eq_ok.mp hConcerns)
  obtain ⟨names, hNames⟩ : ∃ names, names =
      (writes.flatten.filter fun w => w.1 = key).map (·.2) := ⟨_, rfl⟩
  have hCount : (writes.flatten.map (·.1)).count key = names.length := by
    rw [hNames, List.length_map, ← List.countP_eq_length_filter, List.count, List.countP_map]
    exact List.countP_congr fun w _ => by simp
  rw [hCount]
  by_contra hLong
  have hSome : names ≠ [] := List.ne_nil_of_length_pos (by omega)
  have hNone := hShort (key, names) (mem_foldl_add.mpr ⟨hNames, hSome⟩)
  rw [if_pos (Nat.lt_of_not_le hLong)] at hNone
  cases hNone

/-! ## Clean definitions -/

/-- Definitions in which an audit finds nothing to report but entities without operations. -/
structure Clean (models : List Model) (scalars : List String) : Prop where
  names : (models.map (·.name)).Nodup
  free : ∀ m ∈ models, m.name ∉ scalars ∧ m.name ∉ reservedNames
  pascal : ∀ m ∈ models, Naming.isPascalCase m.name = true
  noId : ∀ m ∈ models, "id" ∉ m.fieldNames
  fields : ∀ m ∈ models, m.fieldNames.Nodup
  targets : ∀ m ∈ models, ∀ t ∈ m.relationships, t.type ∈ scalars ∨ ∃ m' ∈ models, m'.name = t.type
  kinds : ∀ m ∈ models, ∃ kinds, m.operations.mapM Operation.kind? = .ok kinds ∧ kinds.Nodup
  shown : ∀ m ∈ models, m.operations ≠ [] → m.properties ≠ []
  writes : ∃ writes, models.mapM writesOf = .ok writes ∧ (writes.flatten.map (·.1)).Nodup

/-- An audit reports its concerns as findings. -/
theorem full_eq_ok {models : List Model} {scalars : List String} {fs : Findings}
    (h : (full models scalars).value = .ok fs) :
    ∃ cs, concerns models scalars = .ok cs ∧ fs = findings cs := by
  unfold full at h
  cases hOperations : operations models with
  | error failure => simp [hOperations] at h
  | ok ops =>
    cases hConcerns : concerns models scalars with
    | error failure => simp [hOperations, hConcerns] at h
    | ok cs => exact ⟨cs, rfl, by simpa [hOperations, hConcerns, eq_comm] using h⟩

/-- The operations are looked at to the end if the kinds of all are known. -/
theorem operations_ok {models : List Model}
    (h : ∀ m ∈ models, ∀ o ∈ m.operations, ∃ kind, o.kind? = .ok kind) :
    ∃ cs, operations models = .ok cs := by
  have hOperationsOf : ∀ m ∈ models, ∃ cs, operationsOf m = .ok cs := by
    intro m hm
    obtain ⟨kinds, hKinds⟩ := mapM_ok (h m hm)
    exact ⟨_, bind_eq_ok.mpr ⟨kinds, hKinds, rfl⟩⟩
  obtain ⟨found, hFound⟩ := mapM_ok hOperationsOf
  exact ⟨_, bind_eq_ok.mpr ⟨found, hFound, rfl⟩⟩

/-- An audit ends with findings if it knows the kinds of all operations. -/
theorem full_ok {models : List Model} (h : ∀ m ∈ models, ∀ o ∈ m.operations, ∃ kind, o.kind? = .ok kind)
    (scalars : List String) : ∃ fs, (full models scalars).value = .ok fs := by
  have hWritesOf : ∀ m ∈ models, ∃ writes, writesOf m = .ok writes := by
    intro m hm
    refine mapM_ok fun o ho => ?_
    obtain ⟨kind, hKind⟩ := h m hm o ho
    exact ⟨_, bind_eq_ok.mpr ⟨kind, hKind, rfl⟩⟩
  obtain ⟨writes, hWrites⟩ := mapM_ok hWritesOf
  obtain ⟨ops, hOperations⟩ := operations_ok h
  obtain ⟨roots, hRoots⟩ : ∃ roots, rootFields models = .ok roots :=
    ⟨_, bind_eq_ok.mpr ⟨_, bind_eq_ok.mpr ⟨writes, hWrites, rfl⟩, rfl⟩⟩
  have hConcerns : ∃ cs, concerns models scalars = .ok cs :=
    ⟨_, bind_eq_ok.mpr ⟨_, hOperations, bind_eq_ok.mpr ⟨roots, hRoots, rfl⟩⟩⟩
  obtain ⟨cs, hConcerns⟩ := hConcerns
  exact ⟨findings cs, by simp [full, hOperations, hConcerns]⟩

section

variable {models : List Model} {scalars : List String}

theorem names_of_info (h : ∀ c ∈ modelNames models scalars, c.severity = .info) :
    (models.map (·.name)).Nodup ∧ ∀ m ∈ models, (m.name ∉ scalars ∧ m.name ∉ reservedNames) ∧
      Naming.isPascalCase m.name = true := by
  refine ⟨repeated_eq_nil.mp (List.eq_nil_iff_forall_not_mem.mpr fun name hName => ?_), ?_⟩
  · cases h (.duplicateModelName name) (List.mem_append_left _ (List.mem_map_of_mem hName))
  · intro m hm
    have hModel : ∀ c ∈ nameCollision scalars m.name ++
        (if Naming.isPascalCase m.name then [] else [.modelNameNotPascalCase m.name]),
        c.severity = .info := fun c hc =>
      h c (List.mem_append_right _ (List.mem_flatMap.mpr ⟨m, hm, hc⟩))
    rw [List.forall_mem_append] at hModel
    obtain ⟨hCollision, hPascal⟩ := hModel
    refine ⟨⟨fun hScalar => ?_, fun hReserved => ?_⟩, ?_⟩
    · cases hCollision (.modelNameIsScalar m.name) (by simp [nameCollision, hScalar])
    · by_cases hScalar : m.name ∈ scalars
      · cases hCollision (.modelNameIsScalar m.name) (by simp [nameCollision, hScalar])
      · cases hCollision (.modelNameReserved m.name) (by simp [nameCollision, hScalar, hReserved])
    · by_contra hNot
      cases hPascal (.modelNameNotPascalCase m.name) (by simp [hNot])

theorem fields_of_info (h : ∀ c ∈ fieldNames models, c.severity = .info) {m : Model}
    (hm : m ∈ models) : "id" ∉ m.fieldNames ∧ m.fieldNames.Nodup := by
  have hModel : ∀ c ∈
      (if m.fieldNames.contains "id" then [Concern.fieldShadowsId m.name] else []) ++
        (repeated m.fieldNames).map (.duplicateFieldName m.name), c.severity = .info :=
    fun c hc => h c (List.mem_flatMap.mpr ⟨m, hm, hc⟩)
  rw [List.forall_mem_append] at hModel
  obtain ⟨hId, hRepeated⟩ := hModel
  refine ⟨fun hMem => ?_, repeated_eq_nil.mp (List.eq_nil_iff_forall_not_mem.mpr fun f hf => ?_)⟩
  · cases hId (.fieldShadowsId m.name) (by simp [hMem])
  · cases hRepeated (.duplicateFieldName m.name f) (List.mem_map_of_mem hf)

theorem targets_of_info (h : ∀ c ∈ relationships models scalars, c.severity = .info) {m : Model}
    (hm : m ∈ models) {t : Relationship} (ht : t ∈ m.relationships) :
    t.type ∈ scalars ∨ ∃ m' ∈ models, m'.name = t.type := by
  by_contra hMissing
  have hUnknown : ¬ (scalars ++ models.map (·.name)).contains t.type = true := by
    rw [List.contains_iff_mem, List.mem_append, List.mem_map]
    exact hMissing
  cases h (.relationshipTargetMissing m.name t.name t.type) (List.mem_flatMap.mpr
    ⟨m, hm, List.mem_filterMap.mpr ⟨t, ht, by simp only [hUnknown]; rfl⟩⟩)

theorem operations_of_info {ops : List Concern} (hOperations : operations models = .ok ops)
    (h : ∀ c ∈ ops, c.severity = .info) {m : Model} (hm : m ∈ models) :
    (∃ kinds, m.operations.mapM Operation.kind? = .ok kinds ∧ kinds.Nodup) ∧
      (m.operations ≠ [] → m.properties ≠ []) := by
  obtain ⟨found, hFound, hEq⟩ := bind_eq_ok.mp hOperations
  obtain rfl := pure_eq_ok.mp hEq
  obtain ⟨cs, hcs, hModel⟩ := mem_mapM hFound hm
  have hInfo : ∀ c ∈ cs, c.severity = .info := fun c hc => h c (List.mem_flatten.mpr ⟨cs, hcs, hc⟩)
  obtain ⟨kinds, hKinds, hEq⟩ := bind_eq_ok.mp hModel
  obtain rfl := pure_eq_ok.mp hEq
  rw [List.forall_mem_append] at hInfo
  obtain ⟨hCollisions, hShape⟩ := hInfo
  refine ⟨⟨kinds, hKinds, repeatedKinds_eq_nil.mp ?_⟩, fun hSome hNone => ?_⟩
  · refine List.eq_nil_iff_forall_not_mem.mpr fun kind hKind => ?_
    cases hCollisions (.duplicateOperationKind m.name kind) (List.mem_map_of_mem hKind)
  · cases hShape (.emptyFragment m.name) (by simp [hSome, hNone])

theorem writes_of_info {roots : List Concern} (hRoots : rootFields models = .ok roots)
    (h : ∀ c ∈ roots, c.severity = .info) :
    ∃ writes, models.mapM writesOf = .ok writes ∧ (writes.flatten.map (·.1)).Nodup := by
  refine rootFields_eq_nil (hRoots.trans (congrArg _ ?_))
  refine List.eq_nil_iff_forall_not_mem.mpr fun c hc => ?_
  obtain ⟨ws, -, hEq⟩ := bind_eq_ok.mp hRoots
  obtain rfl := pure_eq_ok.mp hEq
  obtain ⟨w, -, hw⟩ := List.mem_filterMap.mp hc
  have hSeverity := h c hc
  split at hw
  · obtain rfl := Option.some.inj hw
    cases hSeverity
  · cases hw

/-- Definitions on which an audit reports neither an error nor a warning are clean. -/
theorem clean_of_full {fs : Findings} (h : (full models scalars).value = .ok fs)
    (hErrors : fs.hasErrors = false) (hWarnings : fs.hasWarnings = false) :
    Clean models scalars := by
  obtain ⟨cs, hConcerns, rfl⟩ := full_eq_ok h
  have hInfo : ∀ c ∈ cs, c.severity = .info := by
    intro c hc
    have hFinding : c.finding ∈ findings cs := List.mem_map_of_mem hc
    have hNoError := List.any_eq_false.mp hErrors _ hFinding
    have hNoWarning := List.any_eq_false.mp hWarnings _ hFinding
    cases hSeverity : c.severity with
    | info => rfl
    | error => simp [Concern.finding, hSeverity] at hNoError
    | warning => simp [Concern.finding, hSeverity] at hNoWarning
  obtain ⟨ops, hOperations, hRest⟩ := bind_eq_ok.mp hConcerns
  obtain ⟨roots, hRoots, hEq⟩ := bind_eq_ok.mp hRest
  obtain rfl := pure_eq_ok.mp hEq
  simp only [List.forall_mem_append] at hInfo
  obtain ⟨⟨⟨⟨hNames, hTargets⟩, hFields⟩, hOps⟩, hRootFields⟩ := hInfo
  obtain ⟨hNodup, hEach⟩ := names_of_info hNames
  exact {
    names := hNodup
    free := fun m hm => (hEach m hm).1
    pascal := fun m hm => (hEach m hm).2
    noId := fun m hm => (fields_of_info hFields hm).1
    fields := fun m hm => (fields_of_info hFields hm).2
    targets := fun m hm t ht => targets_of_info hTargets hm ht
    kinds := fun m hm => (operations_of_info hOperations hOps hm).1
    shown := fun m hm => (operations_of_info hOperations hOps hm).2
    writes := writes_of_info hRoots hRootFields }

end

end Audit

end EntityGraph
