import EntityGraph.Proofs.Distinct
import EntityGraph.Proofs.Handlers.Closed
import EntityGraph.Proofs.Segments

/-!
# The imports of a module

Every entity asks for the import of its service and for the imports of its validators, and many ask
for the same ones.  The module lists each of them once, in the order in which they were asked for
first.  The name that an import binds tells the import: services are the only ones whose names end in
the word for a service, and the name of a service tells where it is.  An entity that cannot be
written asks for nothing.

* `accepted`, `requested`: the entities that a module takes in, and the imports they ask for;
* `Module.addAll`: a module after a row of additions, and `imports_addAll`: its imports;
* `distinctImports_eq`: the imports that are listed are first occurrences;
* `eq_of_name`: the name of a requested import tells the import;
* `addAll_source`: the text of a module, its imports in front of all bodies;
* `imports_listed_once`: first occurrences of any values, and the imports of any module.
-/

namespace EntityGraph.Handlers

open Outcome

/-! ## Imports that are listed -/

/-- The line of an import as a value. -/
def Import.value (i : Import) : Value := .text i.line

theorem line_equivalence :
    EquivalenceOn (fun _ => True) fun i j : Import => i.line == j.line :=
  .of_key fun _ _ => beq_iff_eq

/-- The imports that are listed are the first ones of every line. -/
theorem distinctImports_eq (imports : List Import) :
    distinctImports imports = firsts (fun i j => i.line == j.line) imports := by
  induction imports using List.reverseRecOn with
  | nil => rfl
  | append_singleton imports i ih =>
    have hStep : distinctImports (imports ++ [i]) =
        if (distinctImports imports).any fun j => j.line == i.line then distinctImports imports
        else distinctImports imports ++ [i] := by
      simp [distinctImports]
    rw [hStep, ih, firsts_append, any_firsts line_equivalence (fun _ _ => trivial) trivial]

/-- They are what is left of the requested lines as values. -/
theorem distinct_lines (imports : List Import) :
    Value.distinct (imports.map Import.value) = .ok ((distinctImports imports).map Import.value) := by
  have hMembers : ∀ v ∈ imports.map Import.value, v.IsMember := by
    intro v hv
    obtain ⟨i, -, rfl⟩ := List.mem_map.mp hv
    exact .text i.line
  rw [Value.distinct_eq hMembers, firsts_map, distinctImports_eq]
  rfl

theorem serviceClass_ne_kind {kind name : String} (h : isValidatorKind kind = true) :
    Naming.serviceClass name ≠ kind := by
  have hTable : ∀ k ∈ Signature.table.map (·.1), ¬ "Service".toList <:+ k.toList := by
    decide +kernel
  rintro rfl
  refine hTable _ (mem_kinds h) ?_
  rw [Naming.toList_serviceClass]
  exact List.suffix_append _ _

section

variable [Limits] {c : Configuration} {models : List Model}

/-! ## Additions -/

/-- The entities that contribute to a module. -/
def accepted (c : Configuration) (models : List Model) : List Model :=
  models.filter fun m => (render c m).toOption.isSome

/-- The imports that entities ask for, in their order. -/
def requested (c : Configuration) (models : List Model) : List Import :=
  (accepted c models).flatMap (Piece.importsOf c.servicePackage c.validatorModule)

/-- A module after entities were added to it one by one.  An entity that is refused leaves the module
as it is. -/
def Module.addAll (c : Configuration) (m : Module) (models : List Model) : Module :=
  models.foldl (fun m entity => ((m.add c entity).value.toOption).getD m) m

/-- The imports that the module of some entities lists. -/
def importBlock (c : Configuration) (models : List Model) : List Import :=
  distinctImports (Module.addAll c {} models).imports

/-- One addition asks for the imports of the entity, if it is taken in. -/
theorem imports_add (m : Module) (entity : Model) :
    (((m.add c entity).value.toOption).getD m).imports = m.imports ++ requested c [entity] := by
  cases hRender : render c entity with
  | error failure => simp [Module.add, requested, accepted, hRender, Except.toOption]
  | ok piece =>
    have hPiece := render_imports hRender
    simp [Module.add, Module.push, Module.imports, requested, accepted, hRender, hPiece,
      Except.toOption]

theorem requested_cons (m : Model) (models : List Model) :
    requested c (m :: models) = requested c [m] ++ requested c models := by
  rw [requested, requested, requested, ← List.flatMap_append, accepted, accepted, accepted,
    ← List.filter_append]
  rfl

/-- The imports of a module are those that its entities ask for. -/
theorem imports_addAll (m : Module) (models : List Model) :
    (m.addAll c models).imports = m.imports ++ requested c models := by
  induction models generalizing m with
  | nil => simp [Module.addAll, requested, accepted]
  | cons entity models ih =>
    rw [Module.addAll, List.foldl_cons]
    have hRest := ih (((m.add c entity).value.toOption).getD m)
    rw [Module.addAll, imports_add, List.append_assoc, ← requested_cons] at hRest
    exact hRest

/-! ## Names of requested imports -/

variable {i j : Import}

/-- An import is requested for the service of an entity or for a validator of one of its
arguments. -/
def IsRequested (c : Configuration) (models : List Model) (i : Import) : Prop :=
  ∃ m ∈ accepted c models, i = Piece.serviceImport c.servicePackage m ∨
    ∃ o ∈ m.operations, ∃ a ∈ o.arguments, ∃ v ∈ a.validators, i = ⟨c.validatorModule, v.kind⟩

theorem mem_requested : i ∈ requested c models ↔ IsRequested c models i := by
  simp only [requested, List.mem_flatMap, Piece.importsOf, List.mem_cons, List.mem_map]
  refine exists_congr fun m => and_congr_right fun _ => or_congr_right ?_
  constructor
  · rintro ⟨⟨field, v⟩, ⟨o, ho, hv⟩, rfl⟩
    obtain ⟨a, ha, -, hv⟩ := Piece.mem_validatorsOf.mp hv
    exact ⟨o, ho, a, ha, v, hv, rfl⟩
  · rintro ⟨o, ho, a, ha, v, hv, rfl⟩
    exact ⟨(a.name, v), ⟨o, ho, Piece.mem_validatorsOf.mpr ⟨a, ha, rfl, hv⟩⟩, rfl⟩

theorem mem_accepted {m : Model} (h : m ∈ accepted c models) : ∃ p, render c m = .ok p := by
  have hSome := (List.mem_filter.mp h).2
  cases hRender : render c m with
  | error failure =>
    rw [hRender] at hSome
    cases hSome
  | ok p => exact ⟨p, rfl⟩

/-- The kind of a validator of an entity that is taken in is known. -/
theorem isValidatorKind_of_accepted {m : Model} (hm : m ∈ accepted c models) {o : Operation}
    (ho : o ∈ m.operations) {a : Argument} (ha : a ∈ o.arguments) {v : Validator}
    (hv : v ∈ a.validators) : isValidatorKind v.kind = true := by
  obtain ⟨p, hPiece⟩ := mem_accepted hm
  obtain ⟨kind, -, s, -, hMade⟩ := Piece.statement_made hPiece ho ha hv
  exact (Piece.statement_spec hMade).1

/-- The name of a requested import tells the import. -/
theorem eq_of_name (hi : i ∈ requested c models) (hj : j ∈ requested c models)
    (h : i.name = j.name) : i = j := by
  obtain ⟨m, hm, hOrigin⟩ := mem_requested.mp hi
  obtain ⟨n, hn, hOrigin'⟩ := mem_requested.mp hj
  rcases hOrigin with rfl | ⟨o, ho, a, ha, v, hv, rfl⟩ <;>
    rcases hOrigin' with rfl | ⟨o', ho', a', ha', v', hv', rfl⟩
  · have hClass : Naming.serviceClass m.name = Naming.serviceClass n.name := h
    simp [Piece.serviceImport, Naming.serviceAttribute, hClass]
  · exact absurd h (serviceClass_ne_kind (isValidatorKind_of_accepted hn ho' ha' hv'))
  · exact absurd h.symm (serviceClass_ne_kind (isValidatorKind_of_accepted hm ho ha hv))
  · exact congrArg (Import.mk c.validatorModule) h

/-- The line of a requested import tells the import. -/
theorem eq_of_line (hi : i ∈ requested c models) (hj : j ∈ requested c models)
    (h : i.line = j.line) : i = j := by
  have hWord : ∀ k ∈ requested c models, ' ' ∉ k.name.toList := by
    intro k hk hBlank
    obtain ⟨m, hm, hMem⟩ := List.mem_flatMap.mp hk
    obtain ⟨p, hPiece⟩ := mem_accepted hm
    rw [← render_imports hPiece] at hMem
    have hWord := (imported_spec hPiece hMem).1 ' ' hBlank
    cases hWord
  exact eq_of_name hi hj (Import.name_of_line (hWord i hi) (hWord j hj) h)

/-! ## First requests -/

theorem importBlock_eq : importBlock c models =
    firsts (fun i j => i.line == j.line) (requested c models) := by
  rw [importBlock, imports_addAll, distinctImports_eq]
  rfl

/-- Every requested import is listed, and nothing else. -/
theorem mem_importBlock : i ∈ importBlock c models ↔ IsRequested c models i := by
  have hKept := keepsFirsts line_equivalence fun (j : Import) (_ : j ∈ requested c models) => trivial
  rw [importBlock_eq, ← mem_requested]
  constructor
  · exact fun hi => hKept.sublist.subset hi
  · intro hi
    obtain ⟨j, hj, hLine⟩ := hKept.complete i hi
    obtain rfl := eq_of_line (hKept.sublist.subset hj) hi (beq_iff_eq.mp hLine)
    exact hj

/-- No name is imported twice. -/
theorem importBlock_names_nodup : ((importBlock c models).map (·.name)).Nodup := by
  rw [importBlock_eq, List.Nodup, List.pairwise_map]
  refine (firsts_apart (requested c models)).imp_of_mem fun {i j} hi hj hLine hName => ?_
  have hEq := eq_of_name ((firsts_sublist _).subset hi) ((firsts_sublist _).subset hj) hName
  simp [hEq] at hLine

/-! ## Texts of modules -/

/-- The text of a module: the import of the library, the listed imports, and then all bodies. -/
theorem addAll_source (c : Configuration) (models : List Model) :
    ∃ header listed bodies,
      ImportLines c "ariadne" ["MutationType", "QueryType"] header ∧
      List.Forall₂ (fun i => ImportLines c (i.pathIn c) [i.name]) (importBlock c models) listed ∧
      List.Forall₂ (Passage.Lines c) (bodyPassages c (Module.addAll c {} models).pieces) bodies ∧
      (Module.addAll c {} models).source c =
        if c.formatSource && !(Module.addAll c {} models).pieces.all Piece.isWellFormed then
          .error .malformedSource
        else if c.formatSource && !(Module.addAll c {} models).pieces.all Piece.isShallow then
          .error .nestedTooDeep
        else .ok ("\n".intercalate (header ++
          (if c.formatSource && (Module.addAll c {} models).pieces.isEmpty then [] else [""]) ++
            listed.flatten ++ bodies.flatten) ++ "\n") := by
  have hImport : ∀ path names,
      ImportLines c path names ((Passage.imports path names).linesIn c) := by
    intro path names
    cases (Passage.imports path names).lines_linesIn c with
    | imports h => exact h
  refine ⟨_, (importBlock c models).map fun i => (i.passage c).linesIn c, _,
    hImport libraryPath libraryNames,
    forall₂_map_self (fun i : Import => hImport (i.pathIn c) [i.name]) _,
    forall₂_map_self (Passage.lines_linesIn c) _, ?_⟩
  have hBlank : (if c.formatSource && (Module.addAll c {} models).pieces.isEmpty then []
      else [.blank]).flatMap (Passage.linesIn c) =
        if c.formatSource && (Module.addAll c {} models).pieces.isEmpty then [] else [""] := by
    split <;> rfl
  rw [Module.source_eq, Module.passages, List.flatMap_append, List.flatMap_append,
    List.flatMap_cons, hBlank, List.flatMap_map, ← List.flatMap_def, ← List.flatMap_def]
  rfl

/-- Of values that may be members of a set, the first occurrences are left, and once more they are all
left.  The imports of a module are what is left of the lines that its entities ask for: every
requested import is listed, nothing else is, and no name is imported twice.  In the text each has
lines of its own, after the import of the library and before all bodies. -/
theorem imports_listed_once :
    (EquivalenceOn Value.IsMember Value.same ∧
      ∀ xs : List Value, (∀ x ∈ xs, x.IsMember) → ∃ ys, Value.distinct xs = .ok ys ∧
        KeepsFirsts Value.same xs ys ∧ Value.distinct ys = .ok ys) ∧
    ∀ c models,
      Value.distinct ((requested c models).map Import.value) =
        .ok ((importBlock c models).map Import.value) ∧
      (∀ i, i ∈ importBlock c models ↔ IsRequested c models i) ∧
      ((importBlock c models).map (·.name)).Nodup ∧
      ∃ header listed bodies,
        ImportLines c "ariadne" ["MutationType", "QueryType"] header ∧
        List.Forall₂ (fun i => ImportLines c (i.pathIn c) [i.name]) (importBlock c models)
          listed ∧
        List.Forall₂ (Passage.Lines c) (bodyPassages c (Module.addAll c {} models).pieces) bodies ∧
        (Module.addAll c {} models).source c =
          if c.formatSource && !(Module.addAll c {} models).pieces.all Piece.isWellFormed then
            .error .malformedSource
          else if c.formatSource && !(Module.addAll c {} models).pieces.all Piece.isShallow then
            .error .nestedTooDeep
          else .ok ("\n".intercalate (header ++
            (if c.formatSource && (Module.addAll c {} models).pieces.isEmpty then [] else [""]) ++
              listed.flatten ++ bodies.flatten) ++ "\n") := by
  refine ⟨⟨Value.same_equivalence, fun xs hxs => ?_⟩, fun c models => ?_⟩
  · exact ⟨firsts Value.same xs, Value.distinct_eq hxs,
      keepsFirsts Value.same_equivalence hxs, Value.distinct_again hxs⟩
  · refine ⟨?_, fun i => mem_importBlock, importBlock_names_nodup, addAll_source c models⟩
    have hImports : (Module.addAll c {} models).imports = requested c models :=
      imports_addAll {} models
    rw [importBlock, hImports, distinct_lines]

end

/-- Three values, the first and the last of them written in several ways. -/
def repeatedValues : List Value :=
  [.int 1, .bool true, .float (.ofInt 1), .text "1", .tuple [.int 1], .tuple [.float (.ofInt 1)]]

/-- An entity with an argument of its own, under some validators. -/
def writtenUnder (name : String) (validators : List Validator) : Model :=
  ⟨name, [], [], [⟨"make", "Create", [⟨"title", "String", false, true, validators⟩], []⟩]⟩

/-- Entities that share a kind of validator, and one with a kind that is unknown. -/
def titledEntities : List Model :=
  [writtenUnder "Book" [⟨"Length", []⟩, ⟨"IsNotEmpty", []⟩], writtenUnder "Shelf" [⟨"IsWide", []⟩],
    writtenUnder "Author" [⟨"IsEmail", []⟩, ⟨"Length", []⟩]]

theorem titledEntities_imports :
    (∀ x ∈ repeatedValues, x.IsMember) ∧
    (∃ ys, Value.distinct repeatedValues = .ok ys ∧ KeepsFirsts Value.same repeatedValues ys ∧
      ys = [.int 1, .text "1", .tuple [.int 1]]) ∧
    (importBlock {} titledEntities).map Import.line =
      ["from services.book_service import BookService", "from validation import Length",
        "from validation import IsNotEmpty", "from services.author_service import AuthorService",
        "from validation import IsEmail"] ∧
    ((importBlock {} titledEntities).map (·.name)).Nodup := by
  have hMembers : ∀ x ∈ repeatedValues, x.IsMember := by
    have hOne : Binary64.ofInt 1 ≠ .nan := by decide
    intro x hx
    simp only [repeatedValues, List.mem_cons, List.not_mem_nil, or_false] at hx
    rcases hx with rfl | rfl | rfl | rfl | rfl | rfl
    · exact .int 1
    · exact .bool true
    · exact .float hOne
    · exact .text "1"
    · exact .tuple (List.forall_mem_singleton.mpr (.int 1))
    · exact .tuple (List.forall_mem_singleton.mpr (.float hOne))
  obtain ⟨⟨-, hValues⟩, hModules⟩ := imports_listed_once
  obtain ⟨ys, hDistinct, hKept, -⟩ := hValues repeatedValues hMembers
  refine ⟨hMembers, ⟨ys, hDistinct, hKept, ?_⟩, ?_, (hModules {} titledEntities).2.2.1⟩
  · rw [hKept.eq_firsts]
    rfl
  · decide +kernel

end EntityGraph.Handlers
