import EntityGraph.Proofs.Schema.WellFormed

/-!
# Fields of input types

An input type has a field for every name among the arguments of its operation, and fields of its own
kind.  Which of two fields of one name stays depends on the kind: the fields that sort and page a list
take the place of arguments, while the identifier gives way to them.

* `get?_argumentFields`: the last argument of each name counts;
* `fixedFields`, `spareFields`: the fields of a kind that replace arguments, and those that arguments
  replace;
* `get?_shapeInput`, `get?_input`: the fields of an input type by name;
* `update_identifies_iff`: an update requires an identifier unless an argument takes its name.
-/

namespace EntityGraph

/-- The last argument of an operation that has a name. -/
def Operation.lastArgument? (o : Operation) (name : String) : Option Argument :=
  lastNamed (·.name) o.arguments name

namespace Schema

open Outcome

/-! ## Arguments -/

section

variable {r : Registry} {as : List Argument} {args : Table TypeExpr}
variable (h : argumentFields r as = .ok args)
include h

theorem nodup_keys_argumentFields : args.keys.Nodup := by
  obtain ⟨-, rfl⟩ := argumentFields_eq_ok.mp h
  rw [Table.keys_mapValues]
  exact Table.nodup_keys_putAll (t := []) List.nodup_nil _

/-- Under each name stands the type of the last argument that has it. -/
theorem get?_argumentFields (name : String) :
    args.get? name =
      (lastNamed (·.name) as name).map fun a => (Declaration.ofArgument a).typeIn r := by
  obtain ⟨-, rfl⟩ := argumentFields_eq_ok.mp h
  rw [Table.get?_mapValues, get?_surviving, lastNamed_map, Option.map_map]
  rfl

end

/-! ## Fields of a kind -/

/-- The fields that take the place of arguments of the same name. -/
def fixedFields : Kind → Table TypeExpr
  | .list => [("sort", .named sortKey), ("paginate", .named paginateKey)]
  | .view | .create | .update | .remove => []

/-- The fields that give way to arguments of the same name.  The identifier of what is shown or
removed is required where it stands alone. -/
def spareFields (kind : Kind) (alone : Bool) : Table TypeExpr :=
  match kind with
  | .view | .remove => [("id", if alone then requiredId else optionalId)]
  | .update => [("id", requiredId)]
  | .list | .create => []

theorem get?_genericFields {args : Table TypeExpr} (h : args.keys.Nodup) (name : String) :
    (genericFields args).get? name =
      (args.get? name).or
        (Table.get? [("id", if args.isEmpty then requiredId else optionalId)] name) := by
  unfold genericFields
  cases hAlone : args.isEmpty with
  | true =>
    rw [List.isEmpty_iff.mp hAlone]
    rfl
  | false => exact Table.get?_putAll_of_nodup h _ name

/-- Under each name stands a fixed field, or else an argument, or else a field that gives way. -/
theorem get?_shapeInput {args : Table TypeExpr} (h : args.keys.Nodup) (kind : Kind)
    (name : String) :
    (shapeInput kind args).get? name =
      ((fixedFields kind).get? name).or
        ((args.get? name).or ((spareFields kind args.isEmpty).get? name)) := by
  cases kind with
  | view => exact get?_genericFields h name
  | remove => exact get?_genericFields h name
  | create => exact (Option.or_none).symm
  | update => exact Table.get?_putAll_of_nodup h _ name
  | list =>
    have hFixed : (fixedFields .list).keys.Nodup := by decide
    exact (Table.get?_putAll_of_nodup hFixed args name).trans
      (congrArg _ (Option.or_none).symm)

/-- The fields of an operation's input type. -/
theorem OperationTypes.get?_input {r : Registry} {m : Model} {o : Operation} {t : OperationTypes}
    (h : make r m o = .ok t) (name : String) :
    t.input.get? name = ((fixedFields t.kind).get? name).or
      (((o.lastArgument? name).map fun a => (Declaration.ofArgument a).typeIn r).or
        ((spareFields t.kind o.arguments.isEmpty).get? name)) := by
  obtain ⟨kind, slot, args, -, -, hArgs, rfl⟩ := make_eq_ok.mp h
  have hAlone : args.isEmpty = o.arguments.isEmpty := by
    rw [Bool.eq_iff_iff, List.isEmpty_iff, List.isEmpty_iff, argumentFields_eq_nil hArgs]
  rw [get?_shapeInput (nodup_keys_argumentFields hArgs), get?_argumentFields hArgs, hAlone]
  rfl

/-- Every argument of an operation that has types is of a type in the registry. -/
theorem OperationTypes.has_argument {r : Registry} {m : Model} {o : Operation}
    {t : OperationTypes} (h : make r m o = .ok t) {a : Argument} (ha : a ∈ o.arguments) :
    r.has a.type = true := by
  obtain ⟨kind, slot, args, -, -, hArgs, rfl⟩ := make_eq_ok.mp h
  exact (argumentFields_eq_ok.mp hArgs).1 a ha

/-! ## Updates -/

/-- The scalars that every schema has are not hidden by entities. -/
theorem Registry.Coherent.find?_builtin {r : Registry} (h : r.Coherent) {name : String}
    (hBuiltin : name ∈ builtinScalars) {key : TypeKey} (hFind : r.find? name = some key) :
    key = scalarKey name := by
  rcases find?_eq_some.mp hFind with ⟨-, rfl⟩ | ⟨-, slot, hObject, -⟩
  · rfl
  · obtain ⟨e, hSlot, rfl⟩ := h.object hObject
    have hName := h.named e.model (h.mem_models (List.mem_of_getElem? hSlot))
    rw [checkTypeName, isReservedType, List.contains_iff_mem.mpr hBuiltin] at hName
    cases hName

/-- A declaration asks for a required identifier exactly if it says so. -/
theorem Registry.Coherent.typeIn_eq_requiredId {r : Registry} (h : r.Coherent) {d : Declaration}
    (hHas : r.has d.type = true) :
    d.typeIn r = requiredId ↔ d.type = "ID" ∧ d.list = false ∧ d.required = true := by
  have hKey := typeIn_key hHas
  have hRequired : requiredId = (TypeExpr.named (scalarKey "ID")).wrap false true := rfl
  rw [Declaration.typeIn, hRequired, TypeExpr.wrap_named_inj, hKey, Option.getD_some]
  refine and_congr_left fun _ => ⟨fun hSame => ?_, fun hType => ?_⟩
  · rw [← find?_name hKey, hSame]
    rfl
  · rw [hType] at hKey
    exact h.find?_builtin (by decide) hKey

/-- An update requires an identifier exactly if no argument takes its name or the last one that does
is a required identifier itself. -/
theorem update_identifies_iff {scalars : List String} {models : List Model} {r : Registry}
    (hRegister : register { scalars } models = .ok r) {m : Model} (hm : m ∈ models)
    {raw : Value} (hRead : Input.model.read raw = .ok m) {o : Operation} (ho : o ∈ m.operations)
    (hKind : o.kind? = .ok .update) :
    (scalarLabels ⊆ scalars → ∃ t, OperationTypes.make r m o = .ok t) ∧
    ∀ t, OperationTypes.make r m o = .ok t → ∃ type, t.input.get? "id" = some type ∧
      (type = requiredId ↔ ∀ a, o.lastArgument? "id" = some a →
        a.type = "ID" ∧ a.list = false ∧ a.required = true) := by
  obtain ⟨hCoherent, hScalars, hModels, -⟩ := register_spec hRegister
  refine ⟨fun hLabels => ?_, fun t hMake => ?_⟩
  · subst hScalars hModels
    exact hCoherent.make_ok hLabels hm ((Model.wellFormed_of_read hRead).operations o ho)
  · have hUpdate : t.kind = .update :=
      (Except.ok.inj (hKind.symm.trans (OperationTypes.make_origin hMake).1)).symm
    rw [OperationTypes.get?_input hMake, hUpdate]
    cases hLast : o.lastArgument? "id" with
    | none => exact ⟨requiredId, rfl, iff_of_true rfl (by simp)⟩
    | some a =>
      have hHas := OperationTypes.has_argument hMake (mem_of_lastNamed hLast).1
      refine ⟨(Declaration.ofArgument a).typeIn r, rfl, ?_⟩
      have hType := hCoherent.typeIn_eq_requiredId (d := Declaration.ofArgument a) hHas
      simpa [Declaration.ofArgument] using hType

/-- A book that is edited by a number, which need not be given. -/
def numberedBook : Model :=
  ⟨"Book", [⟨"title", "String", false, true, false, []⟩], [],
    [⟨"edit", "Update", [⟨"id", "Int", false, false, []⟩], []⟩]⟩

/-- A value that reads as this entity. -/
def numberedBookValue : Value :=
  Value.record [("name", .text "Book"),
    ("properties", .list [Value.record [("name", .text "title"), ("type", .text "String")]]),
    ("operations", .list [Value.record [("name", .text "edit"), ("type", .text "Update"),
      ("arguments", .list [Value.record [("name", .text "id"), ("type", .text "Int"),
        ("required", .bool false)]])]])]

/-- Its input type has no required identifier. -/
theorem numberedBook_unidentified : ∃ r t type, register {} [numberedBook] = .ok r ∧
    OperationTypes.make r numberedBook
        ⟨"edit", "Update", [⟨"id", "Int", false, false, []⟩], []⟩ = .ok t ∧
      t.input.get? "id" = some type ∧ type ≠ requiredId := by
  obtain ⟨r, hRegister⟩ : ∃ r, register {} [numberedBook] = .ok r := ⟨_, by rfl⟩
  have hRead : Input.model.read numberedBookValue = .ok numberedBook := by rfl
  obtain ⟨hMakes, hEach⟩ := update_identifies_iff hRegister (List.mem_singleton.mpr rfl) hRead
    (List.mem_singleton.mpr rfl) (by rfl)
  obtain ⟨t, hMake⟩ := hMakes (fun _ h => h)
  obtain ⟨type, hInput, hIdentifies⟩ := hEach t hMake
  refine ⟨r, t, type, hRegister, hMake, hInput, fun hRequired => ?_⟩
  have hNamed : "Int" = "ID" := (hIdentifies.mp hRequired _ (by rfl)).1
  exact absurd hNamed (by decide)

end Schema

end EntityGraph
