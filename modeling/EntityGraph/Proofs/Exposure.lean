import EntityGraph.Proofs.Executable.Written
import EntityGraph.Proofs.Handlers.Lines
import EntityGraph.Proofs.Naming
import EntityGraph.Proofs.Schema.Contents

/-!
# The outputs expose the same root fields

The schema, the document and the handlers decide by themselves which operations belong to which
root, and they treat repeated names differently: a schema keeps one field for a name, a document
keeps every block, a class keeps every binding.  As sets of names they agree nevertheless, with each
other and with the operations of the entities.

* `Session.parts_of_output`: the parts of an output, after any calls on a session;
* `Makes.rootFields_eq`, `Document.mem_selectedFields_iff`, `Handlers.mem_boundFields_iff`: the root
  fields of each part;
* `Document.scan_selected`, `Handlers.mem_boundFields_passages`: where they stand in the texts;
* `Piece.binding_served`: a bound method is there and delegates to the right service method;
* `root_fields_agree`: all of it for every output.
-/

namespace EntityGraph

open Outcome Schema

/-! ## The parts of an output -/

namespace Session

variable {config : Configuration} {scalars : Option (List String)}

/-- An attempt to finalize a session registers nothing. -/
theorem finalize_models [Limits] {s : Session} (hOpen : s.output = none) :
    s.finalize.value.1.models = s.models := by
  rw [models, finalize_registry hOpen, build_models]
  rfl

/-- A session gives the output with which it was finalized. -/
theorem finalize_again [Limits] {s : Session} (hOpen : s.output = none)
    (hDone : s.finalize.value.1.output ≠ none) :
    s.finalize.value.1.finalize.value.2 = s.finalize.value.2 := by
  rw [finalize_value hOpen] at hDone ⊢
  cases hBuild : (Schema.build s.registry).value.2 with
  | error failure =>
    simp only [hBuild] at hDone
    exact absurd hOpen hDone
  | ok schema =>
    cases hOutput : (s.outputOf schema).value with
    | error failure =>
      simp only [hBuild, hOutput] at hDone
      exact absurd hOpen hDone
    | ok result =>
      simp only [hOutput]
      simp [finalize]

/-- An output was made by a session that was still open, of the same entities. -/
theorem opened_of_output [Limits] {calls : List Call} {output : Output}
    (h : ((start config scalars).after calls).finalize.value.2 = .ok output) :
    ∃ s, Trail config scalars s ∧ s.models = ((start config scalars).after calls).models ∧
      s.finalize.value.2 = .ok output := by
  induction calls using List.reverseRecOn with
  | nil => exact ⟨_, .start config scalars, rfl, h⟩
  | append_singleton calls call ih =>
    have hLast := after_concat (start config scalars) calls call
    by_cases hBefore : ((start config scalars).after calls).output = none
    · have hTrail := after_trail config scalars calls hBefore
      by_cases hAfter : ((start config scalars).after (calls ++ [call])).output = none
      · exact ⟨_, after_trail config scalars _ hAfter, rfl, h⟩
      · rw [hLast] at h hAfter ⊢
        cases call with
        | add m =>
          rw [perform] at hAfter
          cases hAdd : (((start config scalars).after calls).add m).value with
          | error failure => simp only [hAdd] at hAfter; exact absurd hBefore hAfter
          | ok s => simp only [hAdd] at hAfter; exact absurd (hTrail.add hAdd).isOpen hAfter
        | finalize =>
          rw [perform, finalize_again hBefore hAfter] at h
          exact ⟨_, hTrail, (finalize_models hBefore).symm, h⟩
    · rw [hLast, perform_finalized hBefore] at h ⊢
      exact ih h

/-- The parts of an output, whatever calls led to it. -/
theorem parts_of_output [Limits] {calls : List Call} {output : Output}
    (h : ((start config scalars).after calls).finalize.value.2 = .ok output) :
    ∃ registry pieces, registry.Coherent ∧
      registry.models = ((start config scalars).after calls).models ∧
      registry.models.mapM (Handlers.render config) = .ok pieces ∧
      (Schema.build registry).value.2 = .ok output.schema ∧
      Document.ofModels registry.models = .ok output.document ∧
      (Handlers.Module.mk pieces "").source config = .ok output.source := by
  obtain ⟨s, hTrail, hModels, hOutput⟩ := opened_of_output h
  obtain ⟨pieces, registry, hPieces, -, hSession⟩ := (addAll_eq_ok rfl).mp hTrail.fresh
  obtain ⟨hSchema, hDocument, hSource⟩ := (finalize_eq_ok hTrail.isOpen).mp hOutput
  have hModule : s.module = ⟨pieces, ""⟩ := by
    have hParts := congrArg Session.module hSession
    simpa [start] using hParts
  rw [hModule, hTrail.settings] at hSource
  exact ⟨s.registry, pieces, hTrail.registry.coherent, hModels, hPieces, hSchema, hDocument, hSource⟩

end Session

/-! ## The root fields of the parts -/

namespace Schema.Sources.Makes

/-- The object type of a root has the fields of the root. -/
theorem rootFields_eq {s : Sources} {schema : Schema} (h : s.Makes schema) (root : Root) :
    schema.objectFields? root.typeName = some ((s.fieldsOf root).map rootField) := by
  have hMem := h.complete.root_mem root
  obtain ⟨d, hDef⟩ := h.complete.defined _ hMem
  obtain ⟨-, rfl⟩ := definition_root_eq_ok.mp hDef
  have hFind : schema.find? root.typeName = some (rootKey root, _) := h.find?_eq hMem hDef
  rw [objectFields?, hFind]

end Schema.Sources.Makes

/-- The root fields that the blocks of a document with a root's keyword select. -/
def Document.selectedFields (d : Document) (root : Root) : List String :=
  (d.blocks.filter fun b => b.root = root).map (·.field)

theorem Document.mem_selectedFields_iff {models : List Model} {d : Document}
    (h : Document.ofModels models = .ok d) {root : Root} {name : String} :
    name ∈ d.selectedFields root ↔ RootFields.Exposes models root name := by
  obtain ⟨blocks, hBlocks, hEq⟩ := bind_eq_ok.mp h
  obtain rfl := pure_eq_ok.mp hEq
  simp only [selectedFields, List.mem_map, List.mem_filter, decide_eq_true_eq, List.mem_flatten]
  constructor
  · rintro ⟨b, ⟨⟨ofModel, hMem, hb⟩, hRoot⟩, rfl⟩
    obtain ⟨m, hm, hModel⟩ := mapM_mem hBlocks hMem
    obtain ⟨o, ho, hBlock⟩ := mapM_mem hModel hb
    obtain ⟨kind, hKind, rfl⟩ := Block.ofOperation_eq_ok.mp hBlock
    exact ⟨m, List.mem_of_mem_filter hm, o, ho, kind, hKind, hRoot, rfl⟩
  · rintro ⟨m, hm, o, ho, kind, hKind, hRoot, rfl⟩
    have hShown : m ∈ models.filter Model.hasOperations :=
      List.mem_filter.mpr ⟨hm, Model.hasOperations_iff.mpr (List.ne_nil_of_mem ho)⟩
    obtain ⟨ofModel, hMem, hModel⟩ := mem_mapM hBlocks hShown
    obtain ⟨b, hb, hBlock⟩ := mem_mapM hModel ho
    obtain ⟨kind', hKind', rfl⟩ := Block.ofOperation_eq_ok.mp hBlock
    obtain rfl := Except.ok.inj (hKind.symm.trans hKind')
    exact ⟨_, ⟨⟨ofModel, hMem, hb⟩, hRoot⟩, rfl⟩

namespace Executable

/-- An operation with a keyword that selects a root field. -/
def Definition.Selects (keyword name : String) : Definition → Prop
  | .operation k _ _ _ selections => k.text = keyword ∧ ∃ as? arguments directives inner,
      Selection.field as? name arguments directives inner ∈ selections.1
  | _ => False

end Executable

theorem Block.ReadsAs.selects_iff {b : Block} {e : Executable.Definition} (h : b.ReadsAs e)
    {keyword name : String} :
    e.Selects keyword name ↔ b.root.keyword = keyword ∧ b.field = name := by
  cases e with
  | operation k name? parameters directives selections =>
    obtain ⟨hKeyword, -, -, -, fragment, -, hSelections⟩ := h
    simp [Executable.Definition.Selects, hKeyword, hSelections, eq_comm]
  | _ => cases h

/-- In the text of a document the tokens of its fragments are followed by operations, which select
the root fields that its blocks select. -/
theorem Document.scan_selected {d : Document} (h : d.Named) :
    ∃ operations : List Executable.Definition,
      Executable.scan d.text.toList = some (d.fragments.flatMap Fragment.tokens ++
        operations.flatMap Executable.Definition.tokens) ∧
      ∀ root name, name ∈ d.selectedFields root ↔
        ∃ e ∈ operations, e.Selects root.keyword name := by
  obtain ⟨operations, hReads⟩ : ∃ operations, List.Forall₂ Block.ReadsAs d.blocks operations :=
    Executable.exists_forall₂_iff.mpr fun b hb => Block.exists_readsAs (h.blocks b hb).free
  refine ⟨operations, ?_, fun root name => ?_⟩
  · rw [scan_text h, Executable.flatMap_tokens (hReads.imp fun _ _ hb => hb.tokens)]
  · have hKeyword : ∀ r : Root, r.keyword = root.keyword ↔ r = root := by
      intro r
      cases r <;> cases root <;> decide
    simp only [selectedFields, List.mem_map, List.mem_filter, decide_eq_true_eq]
    constructor
    · rintro ⟨b, ⟨hb, rfl⟩, rfl⟩
      obtain ⟨e, he, hRead⟩ := partner_of_mem hReads hb
      exact ⟨e, he, hRead.selects_iff.mpr ⟨rfl, rfl⟩⟩
    · rintro ⟨e, he, hSelects⟩
      obtain ⟨b, hb, hRead⟩ := partner_of_mem hReads.flip he
      obtain ⟨hRoot, rfl⟩ := (Block.ReadsAs.selects_iff hRead).mp hSelects
      exact ⟨b, ⟨hb, (hKeyword b.root).mp hRoot⟩, rfl⟩

namespace Handlers

theorem Piece.handlersOf_eq_ok {m : Model} {o : Operation} {x : Method × Binding} :
    Piece.handlersOf m o = .ok x ↔ ∃ kind, o.kind? = .ok kind ∧
      x = (⟨Naming.resolverMethod kind o.name, Naming.serviceAttribute m.name, kind.serviceMethod⟩,
        ⟨kind.root, Naming.rootField o.name m.name, Naming.resolverMethod kind o.name⟩) := by
  refine bind_eq_ok.trans (exists_congr fun kind => and_congr_right fun _ => ?_)
  rw [pure_eq_ok]
  exact eq_comm

theorem Piece.classOf_eq_ok {m : Model} {c : HandlerClass} :
    Piece.classOf m = .ok c ↔ ∃ xs, m.operations.mapM (Piece.handlersOf m) = .ok xs ∧
      c = ⟨Naming.resolverClass m.name, Naming.serviceClass m.name,
        Naming.serviceAttribute m.name, xs.map (·.1), xs.map (·.2)⟩ := by
  refine bind_eq_ok.trans (exists_congr fun xs => and_congr_right fun _ => ?_)
  rw [pure_eq_ok]
  exact eq_comm

/-- The handlers of an entity's contribution are those of its class. -/
theorem render_handlers [Limits] {config : Configuration} {m : Model} {p : Piece}
    (h : render config m = .ok p) : Piece.classOf m = .ok p.handlers := by
  obtain ⟨ss, handlers, -, hClass, rfl⟩ := Piece.ofModel_eq_ok.mp h
  exact hClass

/-- The names that the handlers of a module bind on a root. -/
def boundFields (pieces : List Piece) (root : Root) : List String :=
  ((pieces.flatMap fun p => p.handlers.bindings).filter fun b => b.root = root).map (·.field)

theorem mem_boundFields_iff [Limits] {config : Configuration} {models : List Model}
    {pieces : List Piece} (h : models.mapM (render config) = .ok pieces) {root : Root} {name : String} :
    name ∈ boundFields pieces root ↔ RootFields.Exposes models root name := by
  simp only [boundFields, List.mem_map, List.mem_filter, decide_eq_true_eq, List.mem_flatMap]
  constructor
  · rintro ⟨b, ⟨⟨p, hp, hb⟩, hRoot⟩, rfl⟩
    obtain ⟨m, hm, hPiece⟩ := mapM_mem h hp
    obtain ⟨xs, hAll, hClass⟩ := Piece.classOf_eq_ok.mp (render_handlers hPiece)
    rw [hClass] at hb
    obtain ⟨x, hx, rfl⟩ := List.mem_map.mp hb
    obtain ⟨o, ho, hHandlers⟩ := mapM_mem hAll hx
    obtain ⟨kind, hKind, rfl⟩ := Piece.handlersOf_eq_ok.mp hHandlers
    exact ⟨m, hm, o, ho, kind, hKind, hRoot, rfl⟩
  · rintro ⟨m, hm, o, ho, kind, hKind, hRoot, rfl⟩
    obtain ⟨p, hp, hPiece⟩ := mem_mapM h hm
    obtain ⟨xs, hAll, hClass⟩ := Piece.classOf_eq_ok.mp (render_handlers hPiece)
    obtain ⟨x, hx, hHandlers⟩ := mem_mapM hAll ho
    obtain ⟨kind', hKind', rfl⟩ := Piece.handlersOf_eq_ok.mp hHandlers
    obtain rfl := Except.ok.inj (hKind.symm.trans hKind')
    have hBindings : p.handlers.bindings = xs.map (·.2) := by rw [hClass]
    have hb := List.mem_map_of_mem (f := Prod.snd) hx
    exact ⟨_, ⟨⟨p, hp, hBindings ▸ hb⟩, hRoot⟩, rfl⟩

/-- They are the names in the bindings of the classes among its passages. -/
theorem mem_boundFields_passages (c : Configuration) {pieces : List Piece} {root : Root}
    {name : String} : name ∈ boundFields pieces root ↔
      ∃ k, .handlers k ∈ (Module.mk pieces "").passages c ∧ ∃ b ∈ k.bindings,
        b.root = root ∧ b.field = name := by
  have hClass : ∀ k, Passage.handlers k ∈ (Module.mk pieces "").passages c ↔
      ∃ p ∈ pieces, k = p.handlers := by
    intro k
    cases pieces with
    | nil =>
      simp only [Module.passages, bodyPassages]
      split <;> simp [Import.passage]
    | cons p ps =>
      simp only [Module.passages, bodyPassages, Piece.passages]
      split <;> split <;> simp [Import.passage]
  simp only [hClass, boundFields, List.mem_map, List.mem_filter, List.mem_flatMap,
    decide_eq_true_eq]
  constructor
  · rintro ⟨b, ⟨⟨p, hp, hb⟩, hRoot⟩, hName⟩
    exact ⟨_, ⟨p, hp, rfl⟩, b, hb, hRoot, hName⟩
  · rintro ⟨_, ⟨p, hp, rfl⟩, b, hb, hRoot, hName⟩
    exact ⟨b, ⟨⟨p, hp, hb⟩, hRoot⟩, hName⟩

/-! ## Bound methods -/

/-- The text of a method that delegates to the service. -/
theorem Method.lines_eq (m : Method) : m.lines =
    ["    async def " ++ m.name ++ "(self, obj, info, input):",
      "        return await self." ++ m.holder ++ "." ++ m.service ++ "(input)"] := by
  have hParameters : ", ".intercalate methodParameters = "self, obj, info, input" := rfl
  have hOpening : margin 1 ++ "async def " = "    async def " := rfl
  have hClosing : "(" ++ ("self, obj, info, input" ++ "):") = "(self, obj, info, input):" := rfl
  rw [Method.lines, m.return_call, headLine, hParameters, ← hOpening, ← hClosing]
  simp only [String.append_assoc]

/-- A bound method belongs to an operation, and every method of its name in the class delegates to
the service method of the operation's kind. -/
theorem Piece.binding_served {m : Model} {c : HandlerClass} (h : Piece.classOf m = .ok c)
    {b : Binding} (hb : b ∈ c.bindings) : ∃ o ∈ m.operations, ∃ kind, o.kind? = .ok kind ∧
      b = ⟨kind.root, Naming.rootField o.name m.name, Naming.resolverMethod kind o.name⟩ ∧
      (∃ method ∈ c.methods, method.name = b.method) ∧
      ∀ method ∈ c.methods, method.name = b.method →
        method = ⟨b.method, c.holder, kind.serviceMethod⟩ := by
  obtain ⟨xs, hAll, rfl⟩ := Piece.classOf_eq_ok.mp h
  obtain ⟨x, hx, rfl⟩ := List.mem_map.mp hb
  obtain ⟨o, ho, hHandlers⟩ := mapM_mem hAll hx
  obtain ⟨kind, hKind, rfl⟩ := Piece.handlersOf_eq_ok.mp hHandlers
  refine ⟨o, ho, kind, hKind, rfl, ⟨_, List.mem_map_of_mem hx, rfl⟩, fun method hMethod hName => ?_⟩
  obtain ⟨x', hx', rfl⟩ := List.mem_map.mp hMethod
  obtain ⟨o', -, hHandlers'⟩ := mapM_mem hAll hx'
  obtain ⟨kind', -, rfl⟩ := Piece.handlersOf_eq_ok.mp hHandlers'
  have hSame : Naming.resolverMethod kind' o'.name = Naming.resolverMethod kind o.name := hName
  obtain rfl := Naming.resolverMethod_kind hSame
  simp only [hSame]

end Handlers

/-! ## All outputs -/

/-- The fields of each root of the schema are those that the blocks of the document with its keyword
select and those that the handlers bind on it; they are the names that the operations of the
session's entities give.  The text of the module has the lines of the classes with these bindings,
and that of the document, if names are well-formed, the operations that select these fields.  Every
bound method is defined in its class and delegates to the service method of the kind of its
operation. -/
theorem root_fields_agree [Limits] {config : Configuration} {scalars : Option (List String)}
    {calls : List Session.Call} {output : Output}
    (h : ((Session.start config scalars).after calls).finalize.value.2 = .ok output) :
    ∃ pieces,
      ((Session.start config scalars).after calls).models.mapM (Handlers.render config) =
        .ok pieces ∧
      (Handlers.Module.mk pieces "").source config = .ok output.source ∧
      (∀ root, ∃ fields, output.schema.objectFields? root.typeName = some fields ∧ ∀ name,
        (name ∈ fields.map (·.name) ↔ name ∈ Handlers.boundFields pieces root) ∧
        (name ∈ fields.map (·.name) ↔ name ∈ output.document.selectedFields root) ∧
        (name ∈ fields.map (·.name) ↔ RootFields.Exposes
          ((Session.start config scalars).after calls).models root name)) ∧
      (∃ rows, List.Forall₂ (Handlers.Passage.Lines config)
          ((Handlers.Module.mk pieces "").passages config) rows ∧
        output.source = "\n".intercalate rows.flatten ++ "\n") ∧
      (∀ root name, name ∈ Handlers.boundFields pieces root ↔
        ∃ k, .handlers k ∈ (Handlers.Module.mk pieces "").passages config ∧
          ∃ b ∈ k.bindings, b.root = root ∧ b.field = name) ∧
      ((∀ m ∈ ((Session.start config scalars).after calls).models, m.WellFormed) →
        ∃ operations : List Executable.Definition,
          Executable.scan output.document.text.toList =
            some (output.document.fragments.flatMap Fragment.tokens ++
              operations.flatMap Executable.Definition.tokens) ∧
          ∀ root name, name ∈ output.document.selectedFields root ↔
            ∃ e ∈ operations, e.Selects root.keyword name) ∧
      ∀ p ∈ pieces, ∀ b ∈ p.handlers.bindings,
        ∃ m ∈ ((Session.start config scalars).after calls).models, Handlers.render config m = .ok p ∧
        ∃ o ∈ m.operations, ∃ kind, o.kind? = .ok kind ∧ b.root = kind.root ∧
          b.field = Naming.rootField o.name m.name ∧
          (∃ method ∈ p.handlers.methods, method.name = b.method) ∧
          ∃ service, (kind, service) ∈ [(.view, "find"), (.list, "find"), (.create, "create"),
              (.update, "update"), (.remove, "remove")] ∧
            ∀ method ∈ p.handlers.methods, method.name = b.method →
              method = ⟨b.method, p.handlers.holder, service⟩ ∧ method.lines =
                ["    async def " ++ b.method ++ "(self, obj, info, input):",
                  "        return await self." ++ p.handlers.holder ++ "." ++ service ++
                    "(input)"] := by
  obtain ⟨registry, pieces, hCoherent, hModels, hPieces, hSchema, hDocument, hSource⟩ :=
    Session.parts_of_output h
  rw [← hModels]
  refine ⟨pieces, hPieces, hSource, fun root => ?_, Handlers.Module.source_lines hSource,
    fun root name => Handlers.mem_boundFields_passages config,
    fun hWell => Document.scan_selected (Document.named_ofModels hWell hDocument),
    fun p hp b hb => ?_⟩
  · obtain ⟨s, rfl, hGrounded, hMakes⟩ := Sources.makes_of_build hCoherent hSchema
    refine ⟨_, hMakes.rootFields_eq root, fun name => ?_⟩
    have hSchemaNames : name ∈ ((s.fieldsOf root).map Sources.rootField).map (·.name) ↔
        RootFields.Exposes s.registry.models root name := by
      rw [List.map_map]
      exact RootFields.mem_keys_ofRoot_iff (hGrounded.fields root)
    refine ⟨hSchemaNames.trans ?_, hSchemaNames.trans ?_, hSchemaNames⟩
    · exact (Handlers.mem_boundFields_iff hPieces).symm
    · exact (Document.mem_selectedFields_iff hDocument).symm
  · obtain ⟨m, hm, hPiece⟩ := mapM_mem hPieces hp
    obtain ⟨o, ho, kind, hKind, hBinding, hThere, hSame⟩ :=
      Handlers.Piece.binding_served (Handlers.render_handlers hPiece) hb
    refine ⟨m, hm, hPiece, o, ho, kind, hKind, by rw [hBinding], by rw [hBinding], hThere,
      kind.serviceMethod, by cases kind <;> decide, ?_⟩
    intro method hMethod hName
    obtain rfl := hSame method hMethod hName
    exact ⟨rfl, Handlers.Method.lines_eq _⟩

/-- An entity that can be shown and created. -/
def servedBook : Model :=
  ⟨"Book", [⟨"title", "String", false, true, false, []⟩], [],
    [⟨"get", "Show", [], []⟩, ⟨"add", "Create", [⟨"title", "String", false, true, []⟩], []⟩]⟩

theorem servedBook_wellFormed : servedBook.WellFormed := by
  refine ⟨by decide, fun p hp => ?_, by simp [servedBook], fun o ho => ?_⟩
  · obtain rfl := List.mem_singleton.mp hp
    exact ⟨by decide, by decide⟩
  · simp only [servedBook, List.mem_cons, List.not_mem_nil, or_false] at ho
    rcases ho with rfl | rfl
    · exact ⟨by decide, ⟨.view, rfl⟩, by simp⟩
    · refine ⟨by decide, ⟨.create, rfl⟩, fun a ha => ?_⟩
      obtain rfl := List.mem_singleton.mp ha
      exact ⟨by decide, by decide, by simp⟩

/-- Added twice, the entity still has its two root fields in all parts of the output. -/
theorem servedBook_exposed :
    ∃ output pieces, ((Session.start { formatSource := false } none).after
        [.add servedBook, .add servedBook, .finalize]).finalize.value.2 = .ok output ∧
      (Handlers.Module.mk pieces "").source { formatSource := false } = .ok output.source ∧
      "addBook" ∈ Handlers.boundFields pieces .mutation ∧
      "addBook" ∈ output.document.selectedFields .mutation ∧
      ∃ (tokens : List Executable.Token) (operations : List Executable.Definition),
        Executable.scan output.document.text.toList =
          some (tokens ++ operations.flatMap Executable.Definition.tokens) ∧
        ∃ e ∈ operations, e.Selects "mutation" "addBook" := by
  have hModels : ((Session.start { formatSource := false } none).after
      [.add servedBook, .add servedBook, .finalize]).models = [servedBook, servedBook] := by rfl
  have hDone : ((Session.start { formatSource := false } none).after
      [.add servedBook, .add servedBook, .finalize]).finalize.value.2.isOk = true := by
    decide +kernel
  cases hOutput : ((Session.start { formatSource := false } none).after
      [.add servedBook, .add servedBook, .finalize]).finalize.value.2 with
  | error failure =>
    rw [hOutput] at hDone
    cases hDone
  | ok output =>
    obtain ⟨pieces, -, hSource, hRoots, -, -, hText, -⟩ := root_fields_agree hOutput
    obtain ⟨fields, -, hNames⟩ := hRoots .mutation
    obtain ⟨hBound, hSelected, hExposed⟩ := hNames "addBook"
    rw [hModels] at hExposed hText
    have hField : "addBook" ∈ fields.map (·.name) :=
      hExposed.mpr ⟨servedBook, .head _, _, .tail _ (.head _), .create, by rfl, rfl, by rfl⟩
    obtain ⟨operations, hScan, hOperations⟩ := hText fun m hm => by
      simp only [List.mem_cons, List.not_mem_nil, or_false, or_self] at hm
      exact hm ▸ servedBook_wellFormed
    exact ⟨output, pieces, rfl, hSource, hBound.mp hField, hSelected.mp hField, _, operations,
      hScan, (hOperations .mutation "addBook").mp (hSelected.mp hField)⟩

end EntityGraph
