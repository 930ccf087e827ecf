import EntityGraph.Proofs.Audit
import EntityGraph.Proofs.Compilation
import EntityGraph.Proofs.Schema.References

/-!
# What overwriting loses

Two entities of one name share the place of one object type, and two declarations of one name that of
one field; the last one stays.  The audit counts names and never looks at a registry, yet it reports
exactly what is lost there, for the entities together and for the fields of each entity.

* `Audit.Repeats`: the names that stand in a list more than once;
* `Audit.duplicates_modelNames`, `Audit.fieldNames_singleton`: what the audit reports about names;
* `Schema.keepsIdentifier`: the identifier of an entity is the one that was generated for it;
* `losses_reported`: what a session loses of its entities is what the audit reports.
-/

namespace EntityGraph

open Outcome Schema

/-! ## What the audit reports -/

namespace Audit

/-- The names that stand in a list more than once, each of them once. -/
structure Repeats (names again : List String) : Prop where
  nodup : again.Nodup
  mem_iff : ∀ name, name ∈ again ↔ 2 ≤ names.count name

theorem repeats_repeated (names : List String) : Repeats names (repeated names) := by
  refine ⟨(nodup_firstOccurrences names).filter _, fun name => ?_⟩
  rw [repeated, List.mem_filter, mem_firstOccurrences, decide_eq_true_eq]
  refine ⟨And.right, fun hAgain => ⟨?_, hAgain⟩⟩
  exact List.count_pos_iff.mp (by omega)

/-- A name is repeated exactly if there are fewer first occurrences than names. -/
theorem repeated_ne_nil {names : List String} :
    repeated names ≠ [] ↔ (firstOccurrences names).length < names.length := by
  rw [ne_eq, repeated_eq_nil, length_firstOccurrences_lt_iff]

/-- What the audit reports about the name of one entity is not that it is repeated. -/
theorem code_ne_of_name {scalars : List String} {name : String} {c : Concern}
    (h : c ∈ nameCollision scalars name ++
      (if Naming.isPascalCase name then [] else [.modelNameNotPascalCase name])) :
    c.finding.code ≠ "DUPLICATE_MODEL_NAME" := by
  have hKind : c = .modelNameIsScalar name ∨ c = .modelNameReserved name ∨
      c = .modelNameNotPascalCase name := by
    rcases List.mem_append.mp h with h | h
    · unfold nameCollision at h
      split at h
      · exact Or.inl (List.mem_singleton.mp h)
      · split at h
        · exact Or.inr (Or.inl (List.mem_singleton.mp h))
        · cases h
    · split at h
      · cases h
      · exact Or.inr (Or.inr (List.mem_singleton.mp h))
  rcases hKind with rfl | rfl | rfl <;> simp [Concern.finding, Concern.code]

/-- Repeated names of entities are reported once each. -/
theorem duplicates_modelNames (models : List Model) (scalars : List String) :
    (findings (modelNames models scalars)).filter (fun f => f.code = "DUPLICATE_MODEL_NAME") =
      (repeated (models.map (·.name))).map fun name => (Concern.duplicateModelName name).finding := by
  rw [findings, modelNames, List.map_append, List.filter_append, List.map_map]
  have hRepeated : ∀ f ∈ (repeated (models.map (·.name))).map
      (Concern.finding ∘ Concern.duplicateModelName), decide (f.code = "DUPLICATE_MODEL_NAME") := by
    rw [List.forall_mem_map]
    exact fun _ _ => decide_eq_true rfl
  have hOthers : ∀ f ∈ (models.flatMap fun m => nameCollision scalars m.name ++
      (if Naming.isPascalCase m.name then [] else [.modelNameNotPascalCase m.name])).map
        Concern.finding, ¬ decide (f.code = "DUPLICATE_MODEL_NAME") := by
    rw [List.forall_mem_map]
    intro c hc
    obtain ⟨m, -, hc⟩ := List.mem_flatMap.mp hc
    simpa using code_ne_of_name hc
  rw [List.filter_eq_self.mpr hRepeated, List.filter_eq_nil_iff.mpr hOthers, List.append_nil]
  rfl

/-- The audit looks at the fields of one entity after another. -/
theorem fieldNames_flatMap (models : List Model) :
    findings (fieldNames models) = models.flatMap fun m => findings (fieldNames [m]) := by
  simp [findings, fieldNames, List.map_flatMap]

/-- What the audit reports about the fields of one entity: one that takes the name of the identifier,
and the repeated names. -/
theorem fieldNames_singleton (m : Model) : findings (fieldNames [m]) =
    (if m.fieldNames.contains "id" then [(Concern.fieldShadowsId m.name).finding] else []) ++
      (repeated m.fieldNames).map fun name => (Concern.duplicateFieldName m.name name).finding := by
  rw [fieldNames, List.flatMap_singleton, findings, List.map_append, List.map_map]
  split <;> rfl

/-- Nothing is reported about the fields of an entity exactly if their names and that of the
identifier are all different. -/
theorem fieldNames_eq_nil {m : Model} :
    findings (fieldNames [m]) = [] ↔ ("id" :: m.fieldNames).Nodup := by
  rw [fieldNames_singleton, List.append_eq_nil_iff, List.map_eq_nil_iff, repeated_eq_nil,
    List.nodup_cons]
  by_cases hId : "id" ∈ m.fieldNames <;> simp [hId]

end Audit

/-! ## Where a field comes from -/

namespace Schema

/-- Declarations by name, each with its place among them; the last one of a name counts. -/
def numbered (ds : List Declaration) : Table (Declaration × Nat) :=
  Table.putAll [] (ds.zipIdx.map fun d => (d.1.name, d))

/-- Without their places these are the declarations that survive. -/
theorem numbered_mapValues (ds : List Declaration) :
    (numbered ds).mapValues Prod.fst = surviving ds := by
  have hWrites : (ds.zipIdx.map fun d => (d.1.name, d)).map (fun w => (w.1, w.2.1)) =
      ds.map fun d => (d.name, d) := by
    rw [List.map_map]
    calc _ = (ds.zipIdx.map Prod.fst).map fun d => (d.name, d) := by rw [List.map_map]; rfl
      _ = ds.map fun d => (d.name, d) := by rw [List.zipIdx_map_fst]
  rw [numbered, ← Table.putAll_mapValues, hWrites]
  rfl

theorem get?_numbered (ds : List Declaration) (name : String) :
    (numbered ds).get? name = lastNamed (fun d => d.1.name) ds.zipIdx name :=
  Table.get?_putAll_named _ ds.zipIdx name

/-- The identifier of an entity is the one that was generated for it, the first of all its
declarations. -/
def keepsIdentifier (m : Model) : Bool :=
  ((numbered (declarations m)).get? "id").any fun d => d.2 = 0

/-- The generated identifier stays as long as no field takes its name. -/
theorem keepsIdentifier_iff {m : Model} : keepsIdentifier m = true ↔ "id" ∉ m.fieldNames := by
  obtain ⟨rest, hRest⟩ : ∃ rest, declarations m = ⟨"id", "ID", false, true⟩ :: rest := ⟨_, rfl⟩
  have hNames : m.fieldNames = ((rest.zipIdx 1).map Prod.fst).map (·.name) := by
    have hAll := map_name_declarations m
    rw [hRest] at hAll
    rw [List.zipIdx_map_fst]
    exact (List.cons.inj hAll).2.symm
  rw [keepsIdentifier, get?_numbered, hRest, List.zipIdx_cons, lastNamed_cons_of_eq rfl,
    Option.any_some, decide_eq_true_eq, hNames, List.map_map]
  cases hLast : lastNamed (fun d => d.1.name) (rest.zipIdx 1) "id" with
  | none =>
    exact iff_of_true rfl (lastNamed_eq_none.mp hLast)
  | some d =>
    -- the places of the fields begin after that of the identifier
    obtain ⟨hMem, hName⟩ := mem_of_lastNamed hLast
    have hLater : 1 ≤ d.2 := List.le_snd_of_mem_zipIdx hMem
    refine iff_of_false ?_ (not_not_intro (List.mem_map.mpr ⟨d, hMem, hName⟩))
    exact Nat.ne_of_gt hLater

end Schema

/-! ## Losses -/

open Audit

/-- What a session with the default scalars loses of its entities is what the audit reports.  There
are fewer object types than entities exactly if names of entities are reported, and every repeated
name is, once.  An entity has fewer fields than its identifier and its declarations exactly if
something is reported about its fields: once that the identifier is replaced, if it is, and once
every name that is declared again. -/
theorem losses_reported [Limits] {config : Configuration} {models : List Model} {s : Session}
    (hAdd : ((Session.start config none).addAll models).value = (s, .ok ()))
    (hTargets : ∀ m ∈ models, ∀ t ∈ m.relationships,
      t.type ∈ defaultScalars ∨ ∃ m' ∈ models, m'.name = t.type) :
    (∃ names, Repeats (models.map (·.name)) names ∧
      (findings (modelNames models defaultScalars)).filter
          (fun f => f.code = "DUPLICATE_MODEL_NAME") =
        names.map (fun name => (Concern.duplicateModelName name).finding) ∧
      (names ≠ [] ↔ s.registry.objects.length < s.registry.models.length)) ∧
    findings (fieldNames models) = models.flatMap (fun m => findings (fieldNames [m])) ∧
    ∀ m ∈ models, ∃ fields names, modelFields s.registry m = .ok fields ∧
      fields = (numbered (declarations m)).mapValues (fun d => d.1.typeIn s.registry) ∧
      Repeats m.fieldNames names ∧
      findings (fieldNames [m]) =
        (if keepsIdentifier m then [] else [(Concern.fieldShadowsId m.name).finding]) ++
          names.map (fun name => (Concern.duplicateFieldName m.name name).finding) ∧
      (findings (fieldNames [m]) ≠ [] ↔
        fields.length < 1 + m.properties.length + m.relationships.length) := by
  obtain ⟨pieces, r, -, hRegister, rfl⟩ := (Session.addAll_eq_ok rfl).mp hAdd
  have hModels : r.models = models := (register_spec hRegister).2.2.1
  refine ⟨⟨_, repeats_repeated _, duplicates_modelNames models _, ?_⟩, fieldNames_flatMap models, ?_⟩
  · have hObjects : r.objects.length = (firstOccurrences (models.map (·.name))).length := by
      rw [← keys_register hRegister, Table.keys, List.length_map]
    rw [repeated_ne_nil, hObjects, hModels, List.length_map]
  · intro m hm
    have hHas : ∀ t ∈ m.relationships, r.has t.type = true := by
      intro t ht
      rw [has_of_register hRegister, List.mem_append, List.mem_map]
      exact hTargets m hm t ht
    have hFields := modelFields_of_register (by decide) hRegister hm hHas
    refine ⟨_, repeated m.fieldNames, hFields, ?_, repeats_repeated _, ?_, ?_⟩
    · rw [← numbered_mapValues, Table.mapValues, Table.mapValues, List.map_map]
      rfl
    · rw [fieldNames_singleton]
      cases hKeeps : keepsIdentifier m with
      | true => simp [keepsIdentifier_iff.mp hKeeps]
      | false =>
        have hShadowed : "id" ∈ m.fieldNames := by
          by_contra hFree
          rw [keepsIdentifier_iff.mpr hFree] at hKeeps
          cases hKeeps
        simp [hShadowed]
    · have hLength : ("id" :: m.fieldNames).length =
          1 + m.properties.length + m.relationships.length := by
        simp [Model.fieldNames, Model.propertyNames]
        omega
      rw [ne_eq, fieldNames_eq_nil, ← length_firstOccurrences_lt_iff, hLength, Table.mapValues,
        List.length_map, length_surviving, map_name_declarations]

/-- A book with an identifier of its own and with a title that is a property and a relationship. -/
def titledTwice : Model :=
  ⟨"Book", [⟨"id", "Int", false, true, false, []⟩, ⟨"title", "String", false, true, false, []⟩],
    [⟨"title", "Book", true, false⟩], []⟩

/-- A book that takes the place of another. -/
def laterBook : Model := ⟨"Book", [⟨"title", "String", false, true, false, []⟩], [], []⟩

/-- The first of two books is lost, and of its declarations the generated identifier and the first
title. -/
theorem titledTwice_reported : ∃ s fields,
    ((Session.start {} none).addAll [titledTwice, laterBook]).value = (s, .ok ()) ∧
      s.registry.objects.length < s.registry.models.length ∧
      modelFields s.registry titledTwice = .ok fields ∧ fields.length < 4 ∧
      (Concern.fieldShadowsId "Book").finding ∈
        findings (fieldNames [titledTwice, laterBook]) ∧
      (Concern.duplicateFieldName "Book" "title").finding ∈
        findings (fieldNames [titledTwice, laterBook]) := by
  obtain ⟨s, hAdd⟩ : ∃ s, ((Session.start {} none).addAll [titledTwice, laterBook]).value =
    (s, .ok ()) := ⟨_, by rfl⟩
  obtain ⟨⟨names, hNames, -, hLost⟩, hAll, hEach⟩ := losses_reported hAdd (by decide)
  obtain ⟨fields, again, hFields, -, hAgain, hReported, hFewer⟩ := hEach titledTwice (.head _)
  have hTitle : "title" ∈ again := (hAgain.mem_iff "title").mpr (by decide)
  have hBook : "Book" ∈ names := (hNames.mem_iff "Book").mpr (by decide)
  have hShadowed : keepsIdentifier titledTwice = false := by decide +kernel
  rw [hShadowed] at hReported
  refine ⟨s, fields, hAdd, hLost.mp (List.ne_nil_of_mem hBook), hFields, ?_, ?_, ?_⟩
  · exact hFewer.mp (by rw [hReported]; simp)
  · rw [hAll, List.flatMap_cons, hReported]
    simp [titledTwice]
  · rw [hAll, List.flatMap_cons, hReported]
    simp only [List.mem_append, List.mem_map]
    exact Or.inl (Or.inr ⟨"title", hTitle, rfl⟩)

end EntityGraph
