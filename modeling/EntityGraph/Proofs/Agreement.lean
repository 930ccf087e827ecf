import EntityGraph.Proofs.Executable.Written
import EntityGraph.Proofs.Handlers.Lines
import EntityGraph.Proofs.Schema.Contents

/-!
# The outputs agree

A compilation of clean definitions makes a document and handlers that fit its schema.  The schema,
the document and the handlers are made independently, each from the entities; they meet in the
names.  Every operation keeps its root field because a clean audit rules out that another one
overwrites it, and no two blocks and no two fragments have the same name.

* `Selection.lines_eq`: the fields that a selection asks for, in its text;
* `Block.Fits`, `Fragment.Fits`: what a schema has to offer to a block and to a fragment;
* `Prepared.block_fits`: it offers this to the block of every operation;
* `Prepared.statement_fits`: every validator goes to a field of an input type;
* `output_agrees`: both for every output, and what the text of its document reads as.
-/

namespace EntityGraph

open Outcome Schema

/-! ## What blocks and fragments ask for -/

/-- The fields that a selection asks for. -/
def Selection.fields : Selection → List String
  | .entry => ["entry"]
  | .page => ["entries", "total"]

theorem Selection.lines_eq (s : Selection) (fragment : String) : ∃ first rest,
    s.fields = first :: rest ∧
      s.lines fragment = [first ++ " \x7b", "  ..." ++ fragment, "\x7d"] ++ rest := by
  cases s with
  | entry => exact ⟨"entry", [], rfl, by rfl⟩
  | page => exact ⟨"entries", ["total"], rfl, by rfl⟩

/-- The type of the first of these fields: one entity that may be missing, or a list of entities. -/
def Selection.typeText (entity : String) : Selection → String
  | .entry => entity
  | .page => "[" ++ entity ++ "!]!"

/-- A fragment on an object type of a schema whose fields are there and are scalars. -/
structure Fragment.Fits (schema : Schema) (f : Fragment) : Prop where
  nonempty : f.fields ≠ []
  scalars : ∃ fields, schema.objectFields? f.type = some fields ∧ ∀ name ∈ f.fields,
    ∃ g ∈ fields, g.name = name ∧ g.type.key.origin = .scalar ∧
      schema.find? g.type.key.name = some (g.type.key, .scalar)

/-- A block that selects a root field of a schema, gives it an input of the right type, and asks for
all the fields of its result, spreading a fragment for the entities. -/
structure Block.Fits (schema : Schema) (d : Document) (b : Block) (field : ObjectField)
    (result : List ObjectField) (fragment : Fragment) : Prop where
  root : ∃ fields, schema.objectFields? b.root.typeName = some fields ∧
    fields.filter (fun f => f.name = b.field) = [field]
  argument : ∃ type, field.arguments = [("input", type)] ∧ type.text = b.inputType ++ "!"
  offers : schema.objectFields? field.type.key.name = some result
  selects : result.map (·.name) = b.selection.fields
  asks : ∃ first rest, b.selection.fields = first :: rest ∧ b.selection.lines b.fragment =
    [first ++ " \x7b", "  ..." ++ b.fragment, "\x7d"] ++ rest
  spreads : d.fragments.filter (fun f => f.name = b.fragment) = [fragment]
  entities : (result.map (·.type.text)).head? = some (b.selection.typeText fragment.type)
  scalars : fragment.Fits schema

/-- The first field of a result is of the type that the selection wants. -/
theorem resultFields_text (kind : Kind) (entity : TypeKey) :
    ((Sources.plainFields (resultFields (kind = .list) entity)).map (·.type.text)).head? =
      some ((if kind = .list then Selection.page else .entry).typeText entity.name) := by
  by_cases hList : kind = .list
  · have hText : "[" ++ (entity.name ++ "!") ++ "]" ++ "!" = "[" ++ entity.name ++ "!]!" := by
      rw [String.append_assoc, String.append_assoc, String.append_assoc, String.append_assoc]
      rfl
    simp only [hList, if_true, decide_true, resultFields]
    exact congrArg some hText
  · simp only [hList, if_false, decide_false, resultFields]
    rfl

/-- One item of a list has a given image if all images are different. -/
theorem filter_eq_singleton {α β : Type} [DecidableEq β] {f : α → β} {xs : List α}
    (hNodup : (xs.map f).Nodup) {x : α} (hx : x ∈ xs) :
    xs.filter (fun y => f y = f x) = [x] := by
  induction xs with
  | nil => cases hx
  | cons y ys ih =>
    obtain ⟨hFresh, hRest⟩ := List.nodup_cons.mp hNodup
    rcases List.mem_cons.mp hx with rfl | hx
    · have hNone : ys.filter (fun y => f y = f x) = [] := by
        refine List.filter_eq_nil_iff.mpr fun y hy hSame => hFresh ?_
        rw [← of_decide_eq_true hSame]
        exact List.mem_map_of_mem hy
      rw [List.filter_cons_of_pos (by simp), hNone]
    · have hOther : ¬ f y = f x := fun hSame => hFresh (hSame ▸ List.mem_map_of_mem hx)
      rw [List.filter_cons_of_neg (by simpa using hOther), ih hRest hx]

/-! ## The parts of a document -/

/-- The block of an operation whose label is known. -/
def Block.ofKnown (mo : Model × Operation) : Block :=
  ⟨mo.2.knownKind.root, Naming.block mo.1.name mo.2.knownKind,
    Naming.inputType mo.1.name mo.2.knownKind, Naming.rootField mo.2.name mo.1.name,
    if mo.2.knownKind = .list then .page else .entry, Naming.fragment mo.1.name⟩

namespace Sound

variable {models : List Model}

/-- A document has a block for every operation and a fragment for every entity with operations. -/
theorem document_parts (h : Sound models) {d : Document} (hDoc : Document.ofModels models = .ok d) :
    d.fragments = (models.filter Model.hasOperations).map Fragment.ofModel ∧
      d.blocks = (RootFields.operations models).map Block.ofKnown := by
  have hModel : ∀ m ∈ models.filter Model.hasOperations, Document.blocksOf m =
      .ok (m.operations.map fun o => Block.ofKnown (m, o)) := by
    intro m hm
    refine mapM_eq_map fun o ho => ?_
    have hKind := h.kind?_eq (List.mem_of_mem_filter hm) ho
    rw [Block.ofOperation, hKind]
    rfl
  rw [Document.ofModels, mapM_eq_map hModel] at hDoc
  obtain rfl := Except.ok.inj hDoc
  refine ⟨rfl, ?_⟩
  rw [← operations_filter]
  simp [RootFields.operations, List.flatMap_def, Function.comp_def]

/-! ## Names -/

/-- Different operations have blocks with different names. -/
theorem operations_nodup (h : Sound models) : ((RootFields.operations models).map fun mo =>
    (mo.1.name, mo.2.knownKind)).Nodup := by
  refine List.Nodup.map_on ?_ (List.Nodup.of_map _ h.writes_nodup)
  intro mo hmo mo' hmo' hSame
  obtain ⟨hm, ho⟩ := RootFields.mem_operations.mp hmo
  obtain ⟨hm', ho'⟩ := RootFields.mem_operations.mp hmo'
  obtain ⟨hName, hKind⟩ := Prod.mk.inj hSame
  have hModel := h.model_eq hm hm' hName
  rw [← hModel] at ho'
  exact Prod.ext hModel (h.operation_eq hm ho ho' hKind)

theorem blocks_nodup (h : Sound models) :
    (((RootFields.operations models).map Block.ofKnown).map (·.name)).Nodup := by
  have hNames : ∀ mo : Model × Operation, (Block.ofKnown mo).name =
      Naming.block mo.1.name mo.2.knownKind := fun _ => rfl
  rw [List.map_map]
  refine List.Nodup.map_on ?_ (List.Nodup.of_map _ h.operations_nodup)
  intro mo hmo mo' hmo' hSame
  obtain ⟨hName, hKind⟩ := Naming.block_inj hSame
  exact List.inj_on_of_nodup_map h.operations_nodup hmo hmo' (Prod.ext hName hKind)

theorem fragments_nodup (h : Sound models) :
    (((models.filter Model.hasOperations).map Fragment.ofModel).map (·.name)).Nodup := by
  rw [List.map_map]
  refine List.Nodup.map_on ?_ ((List.Nodup.of_map _ h.clean.names).filter _)
  intro m hm m' hm' hSame
  have hName := Naming.fragment_inj hSame
  exact h.model_eq (List.mem_of_mem_filter hm) (List.mem_of_mem_filter hm') hName

theorem declarations_nodup (h : Sound models) {m : Model} (hm : m ∈ models) :
    ((declarations m).map (·.name)).Nodup := by
  rw [map_name_declarations]
  exact List.nodup_cons.mpr ⟨h.clean.noId m hm, h.clean.fields m hm⟩

end Sound

/-! ## Blocks and statements -/

namespace Prepared

variable {models : List Model} {s : Sources} {schema : Schema}
variable (h : Prepared models s) (hMakes : s.Makes schema)
include h hMakes

/-- The properties of an entity are scalar fields of its object type. -/
theorem fragment_fits {m : Model} (hm : m ∈ models) (hSome : m.operations ≠ []) :
    (Fragment.ofModel m).Fits schema := by
  have hCoherent := h.fresh.supplied.coherent
  obtain ⟨slot, hObject⟩ := hCoherent.object_of_mem (h.mem_models.mpr hm)
  obtain ⟨e, hSlot, hName⟩ := hCoherent.object hObject
  have he : e.model ∈ models :=
    h.mem_models.mp (hCoherent.mem_models (List.mem_of_getElem? hSlot))
  have hModel : e.model = m := h.sound.model_eq he hm hName
  obtain ⟨hFields, hKeys⟩ := hMakes.objectFields?_entity h.fresh hObject hSlot
  rw [hModel] at hFields hKeys
  refine ⟨?_, _, hFields, ?_⟩
  · have hProperties := h.sound.clean.shown m hm hSome
    simpa [Fragment.ofModel, Model.propertyNames] using hProperties
  · intro name hName
    obtain ⟨p, hp, rfl⟩ := List.mem_map.mp hName
    let declared := Declaration.ofProperty p
    have hDeclared : declared ∈ declarations m := by
      apply List.mem_cons_of_mem
      apply List.mem_append_left
      exact List.mem_map_of_mem hp
    have hScalar : p.type ∈ s.registry.scalars :=
      h.fresh.supplied.scalars ((h.sound.wellFormed m hm).properties p hp).2
    -- the type of a property is a default scalar, which comes before any entity of its name
    have hKey : (declared.typeIn s.registry).key = scalarKey p.type :=
      Registry.typeIn_scalar hScalar
    have hField := mem_resolved_of_nodup (r := s.registry) (h.sound.declarations_nodup hm) hDeclared
    have hMem := hKeys _ hField
    rw [hKey] at hMem
    refine ⟨_, List.mem_map_of_mem hField, rfl, ?_, ?_⟩
    · rw [hKey]
      rfl
    · rw [hKey]
      exact hMakes.find?_scalar hMem

/-- The block of an operation fits. -/
theorem block_fits {m : Model} (hm : m ∈ models) {o : Operation} (ho : o ∈ m.operations)
    {d : Document} (hDoc : Document.ofModels models = .ok d) : ∃ field result fragment,
      (Block.ofKnown (m, o)).Fits schema d field result fragment := by
  obtain ⟨t, hMake, hf⟩ := h.mem_fieldsOf hm ho
  obtain ⟨kind, slot, args, hKind, hObject, hArgs, hTypes⟩ := OperationTypes.make_eq_ok.mp hMake
  have hKnown : o.knownKind = kind :=
    Except.ok.inj ((h.sound.kind?_eq hm ho).symm.trans hKind)
  have hSome : m.operations ≠ [] := List.ne_nil_of_mem ho
  refine ⟨Sources.rootField (t.field, t), Sources.plainFields t.result, Fragment.ofModel m, ?_⟩
  refine {
    root := ⟨_, hMakes.objectFields?_root h.fresh _, ?_⟩
    argument := ⟨t.argumentType, rfl, ?_⟩
    offers := hMakes.objectFields?_result h.fresh hf
    selects := ?_
    asks := Selection.lines_eq _ _
    spreads := ?_
    entities := ?_
    scalars := h.fragment_fits hMakes hm hSome }
  · have hName : (Block.ofKnown (m, o)).field = t.field := by rw [hTypes, Block.ofKnown]
    have hField := List.mem_map_of_mem (f := Sources.rootField) hf
    rw [hName]
    refine filter_eq_singleton (f := ObjectField.name) ?_ hField
    rw [List.map_map]
    exact RootFields.ofRoot_nodup (h.fresh.grounded.fields o.knownKind.root)
  · rw [hTypes, Block.ofKnown, hKnown]
    rfl
  · rw [hTypes, Block.ofKnown, hKnown]
    cases kind <;> rfl
  · have hFragment : Fragment.ofModel m ∈ d.fragments := by
      rw [(h.sound.document_parts hDoc).1]
      refine List.mem_map_of_mem (List.mem_filter.mpr ⟨hm, ?_⟩)
      simpa [Model.hasOperations] using hSome
    refine filter_eq_singleton (f := Fragment.name) ?_ hFragment
    rw [(h.sound.document_parts hDoc).1]
    exact h.sound.fragments_nodup
  · rw [hTypes, Block.ofKnown, hKnown]
    exact resultFields_text kind ⟨.entity slot, m.name⟩

/-- A statement goes to a field of an input type. -/
theorem statement_fits [Limits] {config : Configuration} {m : Model} (hm : m ∈ models)
    {p : Handlers.Piece} (hPiece : Handlers.render config m = .ok p) {st : Statement}
    (hst : st ∈ p.statements) : ∃ fields, schema.inputFields? st.target = some fields ∧
      st.field ∈ fields.map (·.name) := by
  obtain ⟨o, ho, kind, hKind, hTarget, a, ha, hField⟩ := Handlers.Piece.mem_statements hPiece hst
  obtain ⟨t, hMake, hf⟩ := h.mem_fieldsOf hm ho
  obtain ⟨kind', slot, args, hKind', -, hArgs, hTypes⟩ := OperationTypes.make_eq_ok.mp hMake
  obtain rfl := Except.ok.inj (hKind.symm.trans hKind')
  have hInput : t.inputKey.name = Naming.inputType m.name kind := by
    rw [hTypes]
    rfl
  have hFields := hMakes.inputFields?_eq h.fresh hf
  rw [hInput] at hFields
  refine ⟨_, hTarget ▸ hFields, ?_⟩
  have hArgument : a.name ∈ args.keys :=
    (argumentFields_keys hArgs).mpr (List.mem_map_of_mem ha)
  have hKey : st.field ∈ t.input.keys := by
    rw [hField, hTypes]
    exact mem_keys_shapeInput hArgument
  rw [List.map_map]
  exact hKey

end Prepared

/-! ## Outputs -/

/-- An output of parsed definitions with a clean audit has exactly one block for every operation,
and the block fits the schema and the fragments; no two blocks and no two fragments share a name.
The text of the document is empty if there are no operations, and else it reads as these fragments
and blocks and as nothing else.  Every validator in the source goes to a field of an input type of
the schema. -/
theorem output_agrees [Limits] {raw : Value} {d : Definitions} {settings config : Configuration}
    {fs : Audit.Findings} {output : Output}
    (hParse : (Input.parse raw).value = .ok (d, settings))
    (hAudit : (Audit.full d.models defaultScalars).value = .ok fs)
    (hErrors : fs.hasErrors = false) (hWarnings : fs.hasWarnings = false)
    (hOutput : (compile config none d.models).value = .ok output) :
    (∀ m ∈ d.models, ∀ o ∈ m.operations, ∃ kind b field result fragment, o.kind? = .ok kind ∧
      output.document.blocks.filter
        (fun b => (b.root, b.field) = (kind.root, Naming.rootField o.name m.name)) = [b] ∧
      b.Fits output.schema output.document field result fragment) ∧
    output.document.blocks.length = (RootFields.operations d.models).length ∧
    (output.document.blocks.map (·.name)).Nodup ∧
    (output.document.fragments.map (·.name)).Nodup ∧
    (output.document.text = "" ↔ ∀ m ∈ d.models, m.operations = []) ∧
    (output.document.text ≠ "" → ∃ fs bs, Executable.Reads output.document.text (fs ++ bs) ∧
      (∀ ds, Executable.Reads output.document.text ds → ds = fs ++ bs) ∧
      List.Forall₂ Fragment.ReadsAs output.document.fragments fs ∧
      List.Forall₂ Block.ReadsAs output.document.blocks bs) ∧
    ∃ pieces, d.models.mapM (Handlers.render config) = .ok pieces ∧
      (Handlers.Module.mk pieces "").source config = .ok output.source ∧
      (∃ rows, List.Forall₂ (Handlers.Passage.Lines config)
        ((Handlers.Module.mk pieces "").passages config) rows ∧
        output.source = "\n".intercalate rows.flatten ++ "\n") ∧
      ∀ p ∈ pieces, ∀ st ∈ p.statements, ∃ fields,
        output.schema.inputFields? st.target = some fields ∧ st.field ∈ fields.map (·.name) := by
  have hSound : Sound d.models := .of_parse hParse hAudit hErrors hWarnings
  obtain ⟨s, hRegister, hPrepared⟩ := hSound.prepared
  obtain ⟨registry, pieces, hRegister', hPieces, hBuild, hDoc, hSource⟩ := compile_eq_ok.mp hOutput
  obtain rfl := Except.ok.inj (hRegister.symm.trans hRegister')
  have hMakes := hPrepared.fresh.makes hBuild
  obtain ⟨hFragments, hBlocks⟩ := hSound.document_parts hDoc
  have hNamed := Document.named_ofModels hSound.wellFormed hDoc
  refine ⟨?_, ?_, ?_, ?_, Document.text_eq_empty_iff hNamed hDoc, fun hSome => ?_, pieces, hPieces,
    hSource, Handlers.Module.source_lines hSource, ?_⟩
  · intro m hm o ho
    have hKind := hSound.kind?_eq hm ho
    obtain ⟨field, result, fragment, hFits⟩ := hPrepared.block_fits hMakes hm ho hDoc
    have hBlock : Block.ofKnown (m, o) ∈ output.document.blocks := by
      rw [hBlocks]
      exact List.mem_map_of_mem (RootFields.mem_operations.mpr ⟨hm, ho⟩)
    have hWrites : (output.document.blocks.map fun b => (b.root, b.field)).Nodup := by
      rw [hBlocks, List.map_map]
      exact hSound.writes_nodup
    exact ⟨o.knownKind, _, field, result, fragment, hKind,
      filter_eq_singleton hWrites hBlock, hFits⟩
  · rw [hBlocks, List.length_map]
  · rw [hBlocks]
    exact hSound.blocks_nodup
  · rw [hFragments]
    exact hSound.fragments_nodup
  · refine Document.exists_reading hNamed hSome fun f hf => ?_
    obtain ⟨m, hm, rfl⟩ := List.mem_map.mp (hFragments ▸ hf)
    obtain ⟨hMem, hShown⟩ := List.mem_filter.mp hm
    simpa [Fragment.ofModel, Model.propertyNames] using
      hSound.clean.shown m hMem (Model.hasOperations_iff.mp hShown)
  · intro p hp st hst
    obtain ⟨m, hm, hPiece⟩ := mapM_mem hPieces hp
    exact hPrepared.statement_fits hMakes hm hPiece hst

/-- An entity that is made with a checked title. -/
def titledBook : Model :=
  ⟨"Book", [⟨"title", "String", false, true, false, []⟩], [],
    [⟨"add", "Create", [⟨"title", "String", false, true,
      [⟨"MinLength", [(.text "min", .int 3)]⟩]⟩], []⟩]⟩

/-- A value that reads as this entity. -/
def titledBookValue : Value :=
  .list [Value.record [("name", .text "Book"),
    ("properties", .list [Value.record [("name", .text "title"), ("type", .text "String")]]),
    ("operations", .list [Value.record [("name", .text "add"), ("type", .text "Create"),
      ("arguments", .list [Value.record [("name", .text "title"), ("type", .text "String"),
        ("validators", .list [Value.record [("type", .text "MinLength"),
          ("properties", Value.record [("min", .int 3)])]])]])]])]]

theorem titledBook_agrees : ∃ output b field result fragment,
    (compile { formatSource := false } none [titledBook]).value = .ok output ∧
      output.document.blocks.filter
        (fun b => (b.root, b.field) = (Root.mutation, "addBook")) = [b] ∧
      b.Fits output.schema output.document field result fragment ∧
      ∃ e ds, Executable.Reads output.document.text ds ∧ e ∈ ds ∧ b.ReadsAs e := by
  have hParse : (Input.parse titledBookValue).value = .ok (.ofModels [titledBook], {}) := by rfl
  have hAudit : (Audit.full [titledBook] defaultScalars).value = .ok [] := by rfl
  have hDone : (compile { formatSource := false } none [titledBook]).value.isOk = true := by
    decide +kernel
  cases hOutput : (compile { formatSource := false } none [titledBook]).value with
  | error failure =>
    rw [hOutput] at hDone
    cases hDone
  | ok output =>
    obtain ⟨hEach, -, -, -, hEmpty, hReading, -⟩ :=
      output_agrees hParse hAudit (by rfl) (by rfl) hOutput
    obtain ⟨kind, b, field, result, fragment, hKind, hOne, hFits⟩ :=
      hEach titledBook List.mem_cons_self _ List.mem_cons_self
    obtain rfl : Kind.create = kind := Except.ok.inj hKind
    have hSome : output.document.text ≠ "" := fun hText => by
      have hNone := hEmpty.mp hText titledBook List.mem_cons_self
      simp [titledBook] at hNone
    obtain ⟨fs, bs, hReads, -, -, hBlocks⟩ := hReading hSome
    have hb : b ∈ output.document.blocks :=
      List.mem_of_mem_filter (hOne.symm ▸ List.mem_singleton_self b)
    obtain ⟨e, he, hRead⟩ := partner_of_mem hBlocks hb
    exact ⟨output, b, field, result, fragment, rfl, hOne, hFits, e, fs ++ bs, hReads,
      List.mem_append_right fs he, hRead⟩

end EntityGraph
