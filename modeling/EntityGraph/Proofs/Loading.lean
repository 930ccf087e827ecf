import EntityGraph.Proofs.Pipeline
import EntityGraph.Proofs.Schema.Fieldless

/-!
# Schemas that a server can load

A server that loads the schema of a run as it is refuses object types and input types without
fields.  A run may succeed and still write some: both roots are always made, also when no operation
belongs to one of them, and the input type of a `Create` operation has no field but its arguments.

* `success_loadable_iff`: which types of a successful run's schema have no field, and when there are
  none.
-/

namespace EntityGraph

/-- The schema of a run that succeeds has a field in every type exactly if the entities have both a
reading and a writing operation and every `Create` operation that prevails takes an argument.
Otherwise the types without fields are the root that no operation belongs to and the input types of
the operations that take nothing. -/
theorem success_loadable_iff [Limits] {o : Options} {d : Definitions} {c : Configuration}
    {report : Report} (hRun : (Pipeline.generate o d c).value = .ok report)
    (hSuccess : report.success = true) :
    ∃ output, report.output = some output ∧
      report.artifacts.get? Pipeline.schemaArtifact = some output.schema.text ∧
      (∀ name, (∃ t ∈ output.schema.types, t.1.name = name ∧ t.2.isFieldless = true) ↔
        Schema.Lacking d.models name) ∧
      ((∀ t ∈ output.schema.types, t.2.isFieldless = false) ↔
        (∀ root, ∃ m ∈ d.models, ∃ o ∈ m.operations, ∃ kind,
          o.kind? = .ok kind ∧ kind.root = root) ∧
        ∀ m o, Schema.RootFields.Prevails d.models m o .create → o.arguments ≠ []) := by
  obtain ⟨output, hCompile, hOutput, hArtifacts⟩ := Pipeline.compiled_of_success hRun hSuccess
  obtain ⟨registry, pieces, hRegister, -, hSchema, -, -⟩ := compile_eq_ok.mp hCompile
  obtain ⟨hCoherent, -, hModels, -⟩ := Schema.register_spec hRegister
  obtain ⟨s, hRegistry, hGrounded, hMakes⟩ := Schema.Sources.makes_of_build hCoherent hSchema
  have hLacking : ∀ name,
      (∃ t ∈ output.schema.types, t.1.name = name ∧ t.2.isFieldless = true) ↔
        Schema.Lacking d.models name := by
    intro name
    rw [hMakes.isFieldless_iff hGrounded, hRegistry, hModels]
  refine ⟨output, hOutput, ?_, hLacking, ?_⟩
  · rw [Report.artifacts, hArtifacts]
    rfl
  · rw [← Schema.nothing_lacking_iff]
    constructor
    · intro hAll name hName
      obtain ⟨t, ht, -, hEmpty⟩ := (hLacking name).mpr hName
      exact Bool.noConfusion ((hAll t ht).symm.trans hEmpty)
    · intro hNone t ht
      refine Bool.eq_false_iff.mpr fun hEmpty => hNone t.1.name ?_
      exact (hLacking _).mp ⟨t, ht, rfl, hEmpty⟩

/-- A run over one entity that can only be shown succeeds, and its schema has a root without
fields. -/
theorem shownBook_not_loadable :
    ∃ report, (Pipeline.generate {} (.ofModels [shownBook]) { formatSource := false }).value =
        .ok report ∧ report.success = true ∧
      ∃ output, report.output = some output ∧
        ∃ t ∈ output.schema.types, t.1.name = "Mutation" ∧ t.2.isFieldless = true := by
  have hLacking : Schema.Lacking [shownBook] Root.mutation.typeName := by
    refine .root .mutation fun m hm op ho kind hKind => ?_
    obtain rfl := List.mem_singleton.mp hm
    obtain rfl := List.mem_singleton.mp ho
    obtain rfl : Kind.view = kind := Except.ok.inj hKind
    decide
  have hDone : ((Pipeline.generate {} (.ofModels [shownBook])
      { formatSource := false }).value.map Report.success).toOption = some true := by decide +kernel
  cases hRun : (Pipeline.generate {} (.ofModels [shownBook]) { formatSource := false }).value with
  | error failure =>
    rw [hRun] at hDone
    cases hDone
  | ok report =>
    rw [hRun] at hDone
    have hSuccess : report.success = true := Option.some.inj hDone
    obtain ⟨output, hOutput, -, hNames, -⟩ := success_loadable_iff hRun hSuccess
    exact ⟨report, rfl, hSuccess, output, hOutput, (hNames _).mpr hLacking⟩

end EntityGraph
