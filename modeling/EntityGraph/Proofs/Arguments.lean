import EntityGraph.Proofs.Clean
import EntityGraph.Proofs.Schema.Contents
import EntityGraph.Proofs.Schema.InputFields

/-!
# What becomes of arguments

No check looks at the names of arguments.  So even clean definitions may declare an argument that its
operation does not take as declared: a later argument of the same name replaces it, and in the input
of a list the fields that sort and page it do.  Nothing else does, and the input always has a field
of its name.

* `fixedFields_eq_none`, `origin_of_fixedFields`: the names of the fields that replace arguments, and
  their types;
* `Operation.Takes`: an operation takes an argument as it is declared;
* `OperationTypes.get?_argument`: the field under the name of an argument;
* `OperationTypes.argument_kept_iff`: when it has the type that the argument declares;
* `argument_typed_iff`: the same for clean definitions, down to the schema.
-/

namespace EntityGraph

open Outcome

/-- An operation of a kind takes an argument as it is declared: its name does not sort or page a
list, and the last argument of that name declares the same type. -/
structure Operation.Takes (kind : Kind) (o : Operation) (a : Argument) : Prop where
  free : kind = .list → a.name ≠ "sort" ∧ a.name ≠ "paginate"
  last : ∀ b, o.lastArgument? a.name = some b →
    b.type = a.type ∧ b.list = a.list ∧ b.required = a.required

namespace Schema

theorem fixedFields_eq_none {kind : Kind} {name : String} :
    (fixedFields kind).get? name = none ↔
      (kind = .list → name ≠ "sort" ∧ name ≠ "paginate") := by
  rw [Table.get?_eq_none_iff]
  cases kind <;> simp [fixedFields]

/-- No argument can have the type of a fixed field. -/
theorem origin_of_fixedFields {kind : Kind} {name : String} {type : TypeExpr}
    (h : (fixedFields kind).get? name = some type) : type.key.origin = .helper := by
  have hMem := Table.mem_of_get? h
  cases kind with
  | list =>
    rcases List.mem_cons.mp hMem with hSort | hMem
    · obtain ⟨-, rfl⟩ := Prod.mk.inj hSort
      rfl
    · obtain ⟨-, rfl⟩ := Prod.mk.inj (List.mem_singleton.mp hMem)
      rfl
  | view => cases hMem
  | create => cases hMem
  | update => cases hMem
  | remove => cases hMem

namespace OperationTypes

section

variable {r : Registry} {m : Model} {o : Operation} {t : OperationTypes}
variable (hMake : make r m o = .ok t) {a : Argument} (ha : a ∈ o.arguments)
include hMake ha

/-- Under the name of an argument stands a fixed field, or else the last argument of that name. -/
theorem get?_argument : ∃ b, o.lastArgument? a.name = some b ∧ t.input.get? a.name =
    some (((fixedFields t.kind).get? a.name).getD ((Declaration.ofArgument b).typeIn r)) := by
  cases hLast : o.lastArgument? a.name with
  | none => exact absurd (List.mem_map_of_mem ha) (lastNamed_eq_none.mp hLast)
  | some b =>
    refine ⟨b, rfl, ?_⟩
    rw [get?_input hMake, hLast]
    cases (fixedFields t.kind).get? a.name <;> rfl

/-- The field under the name of an argument has the type that the argument declares exactly if the
operation takes the argument as it is. -/
theorem argument_kept_iff (hScalar : a.type ∈ r.scalars) : ∃ given,
    t.input.get? a.name = some given ∧
      (given = (Declaration.ofArgument a).typeIn r ↔ o.Takes t.kind a) := by
  obtain ⟨b, hLast, hGiven⟩ := get?_argument hMake ha
  refine ⟨_, hGiven, ?_⟩
  cases hFixed : (fixedFields t.kind).get? a.name with
  | none =>
    have hSame := Registry.typeIn_inj (r := r) (d := .ofArgument b) (e := .ofArgument a)
      (has_argument hMake (mem_of_lastNamed hLast).1) (has_argument hMake ha)
    refine hSame.trans ⟨fun hDeclared => ⟨fixedFields_eq_none.mp hFixed, ?_⟩, ?_⟩
    · intro b' hLast'
      obtain rfl := Option.some.inj (hLast.symm.trans hLast')
      exact hDeclared
    · exact fun hTakes => hTakes.last b hLast
  | some type =>
    refine iff_of_false ?_ fun hTakes => ?_
    · -- the type of a fixed field is not a scalar
      rintro rfl
      have hOrigin := origin_of_fixedFields hFixed
      rw [Registry.typeIn_scalar (d := .ofArgument a) hScalar] at hOrigin
      cases hOrigin
    · cases (fixedFields_eq_none.mpr hTakes.free).symm.trans hFixed

end

end OperationTypes

end Schema

open Schema

/-- The input type of every operation of clean definitions has a field for each argument that is
declared, and a schema that is compiled has this input type.  The field has the type that the registry
resolves the declaration to exactly if the operation takes the argument as it is declared. -/
theorem argument_typed_iff [Limits] {raw : Value} {d : Definitions} {settings : Configuration}
    {fs : Audit.Findings} (hParse : (Input.parse raw).value = .ok (d, settings))
    (hAudit : (Audit.full d.models defaultScalars).value = .ok fs)
    (hErrors : fs.hasErrors = false) (hWarnings : fs.hasWarnings = false) :
    ∃ r, register {} d.models = .ok r ∧ ∀ m ∈ d.models, ∀ o ∈ m.operations,
      ∃ t, OperationTypes.make r m o = .ok t ∧ o.kind? = .ok t.kind ∧
        (∀ config output, (compile config none d.models).value = .ok output →
          output.schema.inputFields? (Naming.inputType m.name t.kind) =
            some (t.input.map fun f => ⟨f.1, f.2, none⟩)) ∧
        ∀ a ∈ o.arguments, ∃ declared given,
          r.resolve a.type a.list a.required = .ok declared ∧
          t.input.get? a.name = some given ∧ (given = declared ↔ o.Takes t.kind a) := by
  have hSound : Sound d.models := .of_parse hParse hAudit hErrors hWarnings
  obtain ⟨s, hRegister, hPrepared⟩ := hSound.prepared
  refine ⟨s.registry, hRegister, fun m hm o ho => ?_⟩
  obtain ⟨t, hMake, hField⟩ := hPrepared.mem_fieldsOf hm ho
  obtain ⟨hKind, hModel, -⟩ := OperationTypes.make_origin hMake
  refine ⟨t, hMake, hKind, fun config output hOutput => ?_, fun a ha => ?_⟩
  · obtain ⟨registry, pieces, hRegister', -, hBuild, -⟩ := compile_eq_ok.mp hOutput
    obtain rfl := Except.ok.inj (hRegister.symm.trans hRegister')
    have hMakes := hPrepared.fresh.makes hBuild
    rw [← hModel]
    exact hMakes.inputFields?_eq hPrepared.fresh hField
  · have hLabel := (((hSound.wellFormed m hm).operations o ho).arguments a ha).type
    have hScalar : a.type ∈ s.registry.scalars := hPrepared.fresh.supplied.scalars hLabel
    obtain ⟨given, hGiven, hKept⟩ := OperationTypes.argument_kept_iff hMake ha hScalar
    have hDeclared := (Declaration.type_eq_ok (d := .ofArgument a)).mpr
      ⟨OperationTypes.has_argument hMake ha, rfl⟩
    exact ⟨_, given, hDeclared, hGiven, hKept⟩

/-- A book whose list takes a number to sort by. -/
def sortedBook : Model :=
  ⟨"Book", [⟨"title", "String", false, true, false, []⟩], [],
    [⟨"all", "List", [⟨"sort", "Int", false, true, []⟩], []⟩]⟩

/-- A value that reads as this entity. -/
def sortedBookValue : Value :=
  .list [Value.record [("name", .text "Book"),
    ("properties", .list [Value.record [("name", .text "title"), ("type", .text "String")]]),
    ("operations", .list [Value.record [("name", .text "all"), ("type", .text "List"),
      ("arguments", .list [Value.record [("name", .text "sort"), ("type", .text "Int")]])]])]]

/-- Nothing is reported, but the number is not what the list takes. -/
theorem sortedBook_retyped : ∃ r t declared given,
    (Audit.full [sortedBook] defaultScalars).value = .ok [] ∧
      register {} [sortedBook] = .ok r ∧
      OperationTypes.make r sortedBook
        ⟨"all", "List", [⟨"sort", "Int", false, true, []⟩], []⟩ = .ok t ∧
      r.resolve "Int" false true = .ok declared ∧ t.input.get? "sort" = some given ∧
      given ≠ declared := by
  have hParse : (Input.parse sortedBookValue).value = .ok (.ofModels [sortedBook], {}) := by rfl
  have hAudit : (Audit.full [sortedBook] defaultScalars).value = .ok [] := by rfl
  obtain ⟨r, hRegister, hEach⟩ := argument_typed_iff hParse hAudit (by rfl) (by rfl)
  obtain ⟨t, hMake, hKind, -, hArguments⟩ := hEach sortedBook (.head _) _ (.head _)
  obtain ⟨declared, given, hDeclared, hGiven, hKept⟩ := hArguments _ (.head _)
  refine ⟨r, t, declared, given, hAudit, hRegister, hMake, hDeclared, hGiven, fun hSame => ?_⟩
  have hList : t.kind = .list := (Except.ok.inj hKind).symm
  exact ((hKept.mp hSame).free hList).1 rfl

end EntityGraph
