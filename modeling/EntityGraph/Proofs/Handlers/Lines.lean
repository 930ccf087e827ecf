import EntityGraph.Handlers
import EntityGraph.Proofs.Handlers.Calls
import EntityGraph.Proofs.Handlers.Layout
import EntityGraph.Proofs.Handlers.Path

/-!
# The lines of a module

The text of a module is a row of passages: imports, statements, classes, and blank lines between
them.  On lines of any length a passage is written in one way; within a limit it may be broken, and
then in the few ways below.  What is broken at brackets keeps all its parts in their order.

* `ImportLines`, `StatementLines`, `ClassLines`: the lines of the parts of a module;
* `Binding.wrapped_cases`: the three ways to write a binding within a limit;
* `Module.passages`: the passages of a module;
* `Module.source_eq`, `Module.source_lines`: when a module has a text, and what its lines are.
-/

namespace EntityGraph.Handlers

/-! ## The lines of parts -/

section

variable (c : Configuration)

/-- The lines of an import of some names: one line, or one for each name, between parentheses. -/
inductive ImportLines (path : String) (names : List String) : List String → Prop
  | whole : ImportLines path names ["from " ++ path ++ " import " ++ ", ".intercalate names]
  | listed (hFormat : c.formatSource = true) : ImportLines path names
      (("from " ++ path ++ " import (") :: (names.map fun name => "    " ++ name ++ ",") ++ [")"])

/-- The lines of a statement: one line, or rows of its leaves, among which commas may be added. -/
inductive StatementLines (s : Statement) : List String → Prop
  | whole (hPlain : c.formatSource = false) : StatementLines s
      [s.kind ++ "(" ++ ", ".intercalate (s.parameters.map Value.literal) ++ ")(" ++
        Literal.quoted s.target ++ ", " ++ Literal.quoted s.field ++ ")"]
  | rows (hFormat : c.formatSource = true) {rows : List Row}
      (hLeaves : Padded (.plain s.kind :: .openCall ::
        Leaf.separated (s.parameters.map literalLeaves) ++ [.closing ")", .openCall,
          .plain (quotedText s.target), .comma, ⟨quotedText s.field, .plain, true⟩, .closing ")"])
        (rows.flatMap (·.leaves))) :
      StatementLines s (rows.map Row.text)

/-- The lines of the head of a method: one line, or one for all parameters, or one for each. -/
inductive HeadLines (opening : String) (parameters : List String) (closing : String) :
    List String → Prop
  | whole : HeadLines opening parameters closing
      ["    " ++ opening ++ ", ".intercalate parameters ++ closing]
  | joined (hFormat : c.formatSource = true) : HeadLines opening parameters closing
      ["    " ++ opening, "        " ++ ", ".intercalate parameters, "    " ++ closing]
  | listed (hFormat : c.formatSource = true) : HeadLines opening parameters closing
      (("    " ++ opening) :: (parameters.map fun p => "        " ++ p ++ ",") ++
        ["    " ++ closing])

/-- The lines that keep a service. -/
inductive KeepLines (holder : String) : List String → Prop
  | whole : KeepLines holder ["        self." ++ holder ++ " = " ++ holder]
  | enclosed (hFormat : c.formatSource = true) : KeepLines holder
      ["        self." ++ holder ++ " = (", "            " ++ holder, "        )"]

/-- The lines that return what the service answers. -/
inductive CallLines (m : Method) : List String → Prop
  | whole : CallLines m ["        return await self." ++ m.holder ++ "." ++ m.service ++ "(input)"]
  | broken (hFormat : c.formatSource = true) : CallLines m
      ["        return await self." ++ m.holder ++ "." ++ m.service ++ "(", "            input",
        "        )"]
  | enclosed (hFormat : c.formatSource = true) : CallLines m
      ["        return (", "            await self." ++ m.holder ++ "." ++ m.service ++ "(",
        "                input", "            )", "        )"]

inductive MethodLines (m : Method) : List String → Prop
  | intro {head call : List String}
      (hHead : HeadLines c ("async def " ++ m.name ++ "(") ["self", "obj", "info", "input"] "):"
        head)
      (hCall : CallLines c m call) : MethodLines m (head ++ call)

/-- The lines that bind a method to a root field. -/
inductive BindingLines (b : Binding) : List String → Prop
  | whole : BindingLines b
      ["        " ++ b.root.keyword ++ ".set_field(\"" ++ b.field ++ "\", self." ++ b.method ++ ")"]
  | joined (hFormat : c.formatSource = true) : BindingLines b
      ["        " ++ b.root.keyword ++ ".set_field(",
        "            \"" ++ b.field ++ "\", self." ++ b.method, "        )"]
  | listed (hFormat : c.formatSource = true) : BindingLines b
      ["        " ++ b.root.keyword ++ ".set_field(", "            \"" ++ b.field ++ "\",",
        "            self." ++ b.method ++ ",", "        )"]

/-- The lines of all bindings of a class. -/
inductive BindingsLines : List Binding → List String → Prop
  | none : BindingsLines [] ["        pass"]
  | some {b : Binding} {bs : List Binding} {rows : List (List String)}
      (h : List.Forall₂ (BindingLines c) (b :: bs) rows) : BindingsLines (b :: bs) rows.flatten

/-- The lines of a class: its head, the method that keeps its service, a method for each operation,
and the method that binds these. -/
inductive ClassLines (k : HandlerClass) : List String → Prop
  | intro {start keep bind bindings : List String} {methods : List (List String)}
      (hStart : HeadLines c "def __init__(" ["self", k.holder ++ ": " ++ k.service] ") -> None:"
        start)
      (hKeep : KeepLines c k.holder keep)
      (hMethods : List.Forall₂ (MethodLines c) k.methods methods)
      (hBind : HeadLines c "def bind(" ["self", "query: QueryType", "mutation: MutationType"]
        ") -> None:" bind)
      (hBindings : BindingsLines c k.bindings bindings) :
      ClassLines k (("class " ++ k.name ++ ":") :: (start ++ keep) ++
        methods.flatMap ("" :: ·) ++ "" :: (bind ++ bindings))

end

theorem margin_one : margin 1 = "    " := rfl

theorem margin_two : margin 2 = "        " := rfl

theorem margin_three : margin 3 = "            " := rfl

/-! ## Plain lines -/

section

variable {c : Configuration}

theorem plain_head (opening : String) (parameters : List String) (closing : String) :
    HeadLines c opening parameters closing [margin 1 ++ headLine opening parameters closing] := by
  have hText : margin 1 ++ headLine opening parameters closing =
      "    " ++ opening ++ ", ".intercalate parameters ++ closing := by
    rw [headLine, margin_one, String.append_assoc, String.append_assoc, String.append_assoc]
  rw [hText]
  exact .whole

omit c in
theorem Method.return_call (m : Method) : margin 2 ++ "return " ++ m.call =
    "        return await self." ++ m.holder ++ "." ++ m.service := by
  have hStart : margin 2 ++ "return " ++ "await self." = "        return await self." := rfl
  rw [Method.call, ← hStart]
  simp only [String.append_assoc]

theorem Method.plain_lines (m : Method) : MethodLines c m m.lines := by
  rw [Method.lines, m.return_call]
  exact .intro (plain_head _ _ _) .whole

theorem Binding.plain_line (b : Binding) : BindingLines c b [margin 2 ++ b.line] := by
  have hText : margin 2 ++ b.line = "        " ++ b.root.keyword ++ ".set_field(\"" ++ b.field ++
      "\", self." ++ b.method ++ ")" := by
    have hOpen : ".set_field(\"" = ".set_field(" ++ "\"" := rfl
    have hClose : "\", self." = "\"" ++ ", self." := rfl
    rw [Binding.line, Binding.quotedField, margin_two, hOpen, hClose]
    simp only [String.append_assoc]
  rw [hText]
  exact .whole

theorem forall₂_map_self {α β : Type} {r : α → β → Prop} {f : α → β} (h : ∀ x, r x (f x))
    (xs : List α) : List.Forall₂ r xs (xs.map f) :=
  List.forall₂_map_right_iff.mpr (List.forall₂_same.mpr fun x _ => h x)

/-- The lines of the bindings of a class from those of each. -/
theorem bindingsLines {f : Binding → List String} (h : ∀ b, BindingLines c b (f b))
    (bs : List Binding) :
    BindingsLines c bs (if bs.isEmpty then [margin 2 ++ "pass"] else bs.flatMap f) := by
  have hPass : margin 2 ++ "pass" = "        pass" := rfl
  cases bs with
  | nil =>
    rw [List.isEmpty_nil, if_pos rfl, hPass]
    exact .none
  | cons b bs =>
    rw [List.isEmpty_cons, if_neg Bool.false_ne_true, List.flatMap_def]
    exact .some (forall₂_map_self h (b :: bs))

theorem plain_keep (k : HandlerClass) :
    KeepLines c k.holder [margin 2 ++ "self." ++ k.holder ++ " = " ++ k.holder] := by
  have hStart : margin 2 ++ "self." = "        self." := rfl
  rw [hStart]
  exact .whole

theorem HandlerClass.plain_lines (k : HandlerClass) : ClassLines c k k.lines := by
  have hBindings := bindingsLines (Binding.plain_line (c := c)) k.bindings
  have hMethods := forall₂_map_self (Method.plain_lines (c := c)) k.methods
  have hLines := ClassLines.intro (plain_head _ _ _) (plain_keep k) hMethods (plain_head _ _ _)
    hBindings
  rw [List.flatMap_map, ← List.map_eq_flatMap] at hLines
  exact hLines

end

/-! ## Lines within a limit -/

section

variable {c : Configuration} (hFormat : c.formatSource = true)
include hFormat

theorem wrapped_importLines (limit : Nat) (path : String) (names : List String) :
    ImportLines c path names (importLines limit path names) := by
  have hOpen : "from " ++ path ++ " import " ++ "(" = "from " ++ path ++ " import (" := by
    have hEnd : " import " ++ "(" = " import (" := rfl
    rw [String.append_assoc, hEnd]
  simp only [importLines]
  split
  · exact .whole
  · rw [hOpen, itemLines, margin_one]
    exact .listed hFormat

theorem wrapped_head (limit : Nat) (opening : String) (parameters : List String)
    (closing : String) :
    HeadLines c opening parameters closing (headLines limit opening parameters closing) := by
  simp only [headLines]
  split
  · exact plain_head opening parameters closing
  · split
    · rw [margin_one, margin_two]
      exact .joined hFormat
    · rw [itemLines, margin_one, margin_two]
      exact .listed hFormat

theorem wrapped_keep (limit : Nat) (k : HandlerClass) :
    KeepLines c k.holder (k.keepLines limit) := by
  have hOpen : margin 2 ++ "self." = "        self." := rfl
  have hClose : margin 2 ++ ")" = "        )" := rfl
  simp only [HandlerClass.keepLines]
  split
  · exact plain_keep k
  · rw [hOpen, hClose, margin_three]
    exact .enclosed hFormat

theorem wrapped_call (limit : Nat) (m : Method) : CallLines c m (m.callLines limit) := by
  have hAwait : margin 3 ++ m.call = "            await self." ++ m.holder ++ "." ++ m.service := by
    have hStart : margin 3 ++ "await self." = "            await self." := rfl
    rw [Method.call, ← hStart]
    simp only [String.append_assoc]
  have hOpen : margin 2 ++ "return (" = "        return (" := rfl
  have hInput : margin 3 ++ "input" = "            input" ∧
      margin 4 ++ "input" = "                input" := ⟨rfl, rfl⟩
  have hClose : margin 2 ++ ")" = "        )" ∧ margin 3 ++ ")" = "            )" :=
    ⟨rfl, rfl⟩
  simp only [Method.callLines, m.return_call, hAwait, hOpen, hInput, hClose]
  split
  · exact .whole
  · split
    · exact .broken hFormat
    · split
      · exact .enclosed hFormat
      · exact .broken hFormat

theorem Method.wrapped_lines (limit : Nat) (m : Method) : MethodLines c m (m.wrapped limit) :=
  .intro (wrapped_head hFormat _ _ _ _) (wrapped_call hFormat limit m)

omit hFormat in
/-- The three ways to write a binding within a limit. -/
theorem Binding.wrapped_cases (limit : Nat) (b : Binding) :
    b.wrapped limit = [margin 2 ++ b.line] ∨
      b.wrapped limit = [margin 2 ++ b.root.keyword ++ ".set_field(",
        margin 3 ++ b.quotedField ++ ", self." ++ b.method, margin 2 ++ ")"] ∨
      b.wrapped limit = [margin 2 ++ b.root.keyword ++ ".set_field(",
        margin 3 ++ b.quotedField ++ ",", margin 3 ++ "self." ++ b.method ++ ",",
        margin 2 ++ ")"] := by
  have hCallee : 2 < (b.root.keyword ++ ".set_field").length := by
    have hLong : ".set_field".length = 10 := rfl
    rw [String.length_append, hLong]
    omega
  have hOpen : ".set_field(" = ".set_field" ++ "(" := rfl
  have hComma : ", self." = "," ++ (" " ++ "self.") := rfl
  -- a layout is one of three rows of rows, and each of these has its text
  have hForms := layOut_pair limit 2 b.quotedField ("self." ++ b.method) hCallee
  simp only [callForms, List.mem_cons, List.not_mem_nil, or_false] at hForms
  rw [pairLeaves] at hForms
  rw [Binding.wrapped, laidOut, bindingLeaves, Binding.line, hOpen, hComma]
  refine hForms.imp (fun h => ?_) (Or.imp (fun h => ?_) fun h => ?_) <;> rw [h] <;>
    simp only [wholeRow, headRow, joinedRow, argumentRow, tailRow, pairLeaves, callLeaves,
      Leaf.separated, secondLeaf, Leaf.plain, Leaf.openCall, Leaf.comma, Leaf.closing, Row.text,
      Row.following, List.map_cons, List.map_nil, List.cons_append, List.nil_append, if_true,
      Bool.false_eq_true, if_false, String.append_assoc, String.append_empty, String.empty_append]

theorem Binding.wrapped_lines (limit : Nat) (b : Binding) : BindingLines c b (b.wrapped limit) := by
  have hClose : margin 2 ++ ")" = "        )" := rfl
  have hField : margin 3 ++ b.quotedField = "            \"" ++ b.field ++ "\"" := by
    have hStart : margin 3 ++ "\"" = "            \"" := rfl
    rw [Binding.quotedField, ← hStart]
    simp only [String.append_assoc]
  have hJoined : ∀ s : String, s ++ "\"" ++ ", self." = s ++ "\", self." := by
    have hEnd : "\"" ++ ", self." = "\", self." := rfl
    intro s
    rw [String.append_assoc, hEnd]
  have hListed : ∀ s : String, s ++ "\"" ++ "," = s ++ "\"," := by
    have hEnd : "\"" ++ "," = "\"," := rfl
    intro s
    rw [String.append_assoc, hEnd]
  have hMethod : margin 3 ++ "self." = "            self." := rfl
  rcases b.wrapped_cases limit with h | h | h <;> rw [h]
  · exact b.plain_line
  · rw [hField, hJoined, hClose, margin_two]
    exact .joined hFormat
  · rw [hField, hListed, hMethod, hClose, margin_two]
    exact .listed hFormat

theorem HandlerClass.wrapped_lines (limit : Nat) (k : HandlerClass) :
    ClassLines c k (k.wrapped limit) := by
  have hMethods := forall₂_map_self (Method.wrapped_lines hFormat limit) k.methods
  have hLines := ClassLines.intro (wrapped_head hFormat limit _ _ _) (wrapped_keep hFormat limit k)
    hMethods (wrapped_head hFormat limit _ _ _)
    (bindingsLines (Binding.wrapped_lines hFormat limit) k.bindings)
  rw [List.flatMap_map] at hLines
  exact hLines

theorem wrapped_statement (limit : Nat) (s : Statement) :
    StatementLines c s (laidOut limit 0 (statementLeaves s)) := by
  have hLeaves : statementLeaves s = .plain s.kind :: .openCall ::
      Leaf.separated (s.parameters.map literalLeaves) ++ [.closing ")", .openCall,
        .plain (quotedText s.target), .comma, ⟨quotedText s.field, .plain, true⟩, .closing ")"] := by
    simp [statementLeaves, callLeaves, Leaf.separated, Leaf.plain]
  exact .rows hFormat (hLeaves ▸ Row.layOut_padded limit 0 (statementLeaves s))

end

/-! ## Passages -/

/-- A passage of a module: a blank line, an import, a statement or a class. -/
inductive Passage where
  | blank
  | imports (path : String) (names : List String)
  | statement (s : Statement)
  | handlers (k : HandlerClass)

/-- The lines that a passage may have. -/
inductive Passage.Lines (c : Configuration) : Passage → List String → Prop
  | blank : Lines c .blank [""]
  | imports {path : String} {names lines : List String} (h : ImportLines c path names lines) :
      Lines c (.imports path names) lines
  | statement {s : Statement} {lines : List String} (h : StatementLines c s lines) :
      Lines c (.statement s) lines
  | handlers {k : HandlerClass} {lines : List String} (h : ClassLines c k lines) :
      Lines c (.handlers k) lines

/-- The lines of a passage. -/
def Passage.linesIn (c : Configuration) : Passage → List String
  | .blank => [""]
  | .imports path names =>
    if c.formatSource then importLines c.lineLength.toNat path names
    else ["from " ++ path ++ " import " ++ ", ".intercalate names]
  | .statement s =>
    if c.formatSource then laidOut c.lineLength.toNat 0 (statementLeaves s) else [s.text]
  | .handlers k => if c.formatSource then k.wrapped c.lineLength.toNat else k.lines

/-- The path in the line of an import, which has no blanks within a line limit. -/
def Import.pathIn (c : Configuration) (i : Import) : String :=
  if c.formatSource then String.ofList (i.path.toList.filter fun d => !isPathBlank d) else i.path

def Import.passage (c : Configuration) (i : Import) : Passage := .imports (i.pathIn c) [i.name]

/-- The statements of a contribution, two blank lines after them if there are any, and its class. -/
def Piece.passages (p : Piece) : List Passage :=
  p.statements.map .statement ++ (if p.statements.isEmpty then [] else [.blank, .blank]) ++
    [.handlers p.handlers]

/-- The passages after the imports. -/
def bodyPassages (c : Configuration) : List Piece → List Passage
  | [] => if c.formatSource then [] else [.blank, .blank, .blank]
  | p :: ps =>
    (if c.formatSource && !p.statements.isEmpty then [.blank] else [.blank, .blank]) ++
      p.passages ++ ps.flatMap fun q => .blank :: .blank :: q.passages

/-- The passages of a module: the import of the library, the imports of its contributions, and what
each of these has to say. -/
def Module.passages (c : Configuration) (m : Module) : List Passage :=
  .imports libraryPath libraryNames ::
    (if c.formatSource && m.pieces.isEmpty then [] else [.blank]) ++
    (distinctImports m.imports).map (Import.passage c) ++ bodyPassages c m.pieces

theorem Passage.lines_linesIn (c : Configuration) (p : Passage) : p.Lines c (p.linesIn c) := by
  cases hFormat : c.formatSource with
  | true =>
    cases p with
    | blank => exact .blank
    | imports path names =>
      rw [linesIn, if_pos hFormat]
      exact .imports (wrapped_importLines hFormat _ path names)
    | statement s =>
      rw [linesIn, if_pos hFormat]
      exact .statement (wrapped_statement hFormat _ s)
    | handlers k =>
      rw [linesIn, if_pos hFormat]
      exact .handlers (k.wrapped_lines hFormat _)
  | false =>
    have hNot : ¬ c.formatSource = true := Bool.eq_false_iff.mp hFormat
    cases p with
    | blank => exact .blank
    | imports path names =>
      rw [linesIn, if_neg hNot]
      exact .imports .whole
    | statement s =>
      rw [linesIn, if_neg hNot]
      exact .statement (.whole hFormat)
    | handlers k =>
      rw [linesIn, if_neg hNot]
      exact .handlers k.plain_lines

/-! ## The text of a module -/

theorem distinctImports_spec (imports : List Import) :
    (∀ i ∈ distinctImports imports, i ∈ imports) ∧
      ∀ i ∈ imports, ∃ j ∈ distinctImports imports, j.line = i.line := by
  unfold distinctImports
  induction imports using List.reverseRecOn with
  | nil => simp
  | append_singleton imports i ih =>
    rw [List.foldl_append, List.foldl_cons, List.foldl_nil]
    generalize imports.foldl
      (fun seen i => if seen.any fun j => j.line == i.line then seen else seen ++ [i]) [] = seen at ih
    obtain ⟨hFrom, hLines⟩ := ih
    split
    · rename_i hThere
      obtain ⟨j, hj, hLine⟩ := List.any_eq_true.mp hThere
      refine ⟨fun k hk => List.mem_append_left _ (hFrom k hk), fun k hk => ?_⟩
      rcases List.mem_append.mp hk with hk | hk
      · exact hLines k hk
      · obtain rfl := List.mem_singleton.mp hk
        exact ⟨j, hj, beq_iff_eq.mp hLine⟩
    · refine ⟨fun k hk => ?_, fun k hk => ?_⟩
      · exact (List.mem_append.mp hk).elim (fun hk => List.mem_append_left _ (hFrom k hk))
          fun hk => List.mem_append_right _ hk
      · rcases List.mem_append.mp hk with hk | hk
        · obtain ⟨j, hj, hLine⟩ := hLines k hk
          exact ⟨j, List.mem_append_left _ hj, hLine⟩
        · exact ⟨k, List.mem_append_right _ hk, rfl⟩

theorem wrapped_passage {c : Configuration} (hFormat : c.formatSource = true) {i : Import}
    (h : i.isWellFormed = true) :
    (i.passage c).linesIn c = i.wrapped c.lineLength.toNat := by
  obtain ⟨settled, hSettled⟩ := Option.isSome_iff_exists.mp (Bool.and_eq_true_iff.mp h).1
  rw [Import.passage, Passage.linesIn, if_pos hFormat, Import.pathIn, if_pos hFormat,
    Import.wrapped, hSettled, Option.getD_some, settlePath?_eq hSettled]

theorem wrapped_body {c : Configuration} (hFormat : c.formatSource = true) (p : Piece) :
    p.passages.flatMap (Passage.linesIn c) = p.wrapped c.lineLength.toNat := by
  have hStatements : (p.statements.map Passage.statement).flatMap (Passage.linesIn c) =
      p.statements.flatMap fun s => laidOut c.lineLength.toNat 0 (statementLeaves s) := by
    rw [List.flatMap_map]
    exact List.flatMap_congr fun s _ => by rw [Passage.linesIn, if_pos hFormat]
  rw [Piece.passages, Piece.wrapped, Piece.statementBlock, List.flatMap_append,
    List.flatMap_append, hStatements]
  cases p.statements <;> simp [Passage.linesIn, hFormat]

theorem wrapped_module {c : Configuration} (hFormat : c.formatSource = true) {m : Module}
    (h : m.pieces.all Piece.isWellFormed = true) :
    (m.passages c).flatMap (Passage.linesIn c) =
      wrappedLines c.lineLength.toNat libraryPath libraryNames (distinctImports m.imports)
        m.pieces := by
  have hImports : ((distinctImports m.imports).map (Import.passage c)).flatMap (Passage.linesIn c) =
      (distinctImports m.imports).flatMap (Import.wrapped c.lineLength.toNat) := by
    rw [List.flatMap_map]
    refine List.flatMap_congr fun i hi => wrapped_passage hFormat ?_
    obtain ⟨p, hp, hi⟩ := List.mem_flatMap.mp ((distinctImports_spec m.imports).1 i hi)
    have hPiece := Bool.and_eq_true_iff.mp (List.all_eq_true.mp h p hp)
    exact List.all_eq_true.mp hPiece.1 i hi
  have hLibrary : (Passage.imports libraryPath libraryNames).linesIn c =
      importLines c.lineLength.toNat libraryPath libraryNames := by
    rw [Passage.linesIn, if_pos hFormat]
  rw [Module.passages, List.flatMap_append, List.flatMap_append, List.flatMap_cons, hImports,
    hLibrary]
  cases hPieces : m.pieces with
  | nil =>
    -- nothing is imported for nobody, and the import of the library stands alone
    have hNone : m.imports = [] := by rw [Module.imports, hPieces]; rfl
    simp [wrappedLines, bodyPassages, hNone, distinctImports, hFormat]
  | cons p ps =>
    have hOthers : (ps.flatMap fun q => .blank :: .blank :: q.passages).flatMap
        (Passage.linesIn c) = ps.flatMap fun q => "" :: "" :: q.wrapped c.lineLength.toNat := by
      rw [List.flatMap_assoc]
      refine List.flatMap_congr fun q _ => ?_
      rw [List.flatMap_cons, List.flatMap_cons, wrapped_body hFormat]
      rfl
    rw [bodyPassages, List.flatMap_append, List.flatMap_append, wrapped_body hFormat, hOthers]
    cases hStatements : p.statements <;>
      simp [wrappedLines, Passage.linesIn, hFormat, hStatements]

/-- Two blank lines between lines. -/
theorem intercalate_apart {xs ys : List String} (hx : xs ≠ []) (hy : ys ≠ []) :
    "\n".intercalate xs ++ "\n\n\n" ++ "\n".intercalate ys =
      "\n".intercalate (xs ++ "" :: "" :: ys) := by
  have hBlanks : "" :: "" :: ys = ["", ""] ++ ys := rfl
  have hThree : "\n\n\n" = "\n" ++ ("\n".intercalate ["", ""] ++ "\n") := rfl
  rw [String.intercalate_append_of_ne_nil hx (by simp), hBlanks,
    String.intercalate_append_of_ne_nil (by simp) hy, hThree]
  simp only [String.append_assoc]

section

variable {c : Configuration} (hPlain : c.formatSource = false)
include hPlain

theorem plain_body (p : Piece) :
    p.body = "\n".intercalate (p.passages.flatMap (Passage.linesIn c)) := by
  have hNot : ¬ c.formatSource = true := Bool.eq_false_iff.mp hPlain
  have hStatements : (p.statements.map Passage.statement).flatMap (Passage.linesIn c) =
      p.statements.map Statement.text := by
    rw [List.flatMap_map, List.map_eq_flatMap]
    exact List.flatMap_congr fun s _ => by rw [Passage.linesIn, if_neg hNot]
  have hClass : ([.handlers p.handlers] : List Passage).flatMap (Passage.linesIn c) =
      p.handlers.lines := by simp [Passage.linesIn, hPlain]
  rw [Piece.body, HandlerClass.text, Piece.passages, List.flatMap_append, List.flatMap_append,
    hStatements, hClass]
  cases p.statements with
  | nil => rfl
  | cons s ss =>
    rw [List.isEmpty_cons, if_neg Bool.false_ne_true, if_neg Bool.false_ne_true,
      intercalate_apart (by simp) (by simp [HandlerClass.lines])]
    simp [Passage.linesIn]

theorem plain_bodies (p : Piece) (ps : List Piece) :
    "\n\n\n".intercalate ((p :: ps).map Piece.body) = "\n".intercalate
      ((p.passages ++ ps.flatMap fun q => .blank :: .blank :: q.passages).flatMap
        (Passage.linesIn c)) := by
  have hSome : ∀ (q : Piece) (rest : List String),
      q.passages.flatMap (Passage.linesIn c) ++ rest ≠ [] := by
    intro q rest
    simp [Piece.passages, Passage.linesIn, hPlain, HandlerClass.lines]
  -- two blank lines come before each body but the first
  induction ps generalizing p with
  | nil => simp [plain_body hPlain]
  | cons q ps ih =>
    have hNext := hSome q ((ps.flatMap fun q => .blank :: .blank :: q.passages).flatMap
      (Passage.linesIn c))
    have hFirst := hSome p []
    rw [List.append_nil] at hFirst
    rw [List.map_cons, String.intercalate_cons_of_ne_nil (by simp), ih, plain_body hPlain,
      List.flatMap_append, intercalate_apart hFirst hNext]
    simp [Passage.linesIn]

theorem plain_module (m : Module) :
    m.plainSource = "\n".intercalate ((m.passages c).flatMap (Passage.linesIn c)) ++ "\n" := by
  have hNot : ¬ c.formatSource = true := Bool.eq_false_iff.mp hPlain
  have hImports : ((distinctImports m.imports).map (Import.passage c)).flatMap (Passage.linesIn c) =
      (distinctImports m.imports).map Import.line := by
    rw [List.flatMap_map, List.map_eq_flatMap]
    refine List.flatMap_congr fun i _ => ?_
    rw [Import.passage, Passage.linesIn, if_neg hNot, Import.pathIn, if_neg hNot]
    rfl
  have hLibrary : (Passage.imports libraryPath libraryNames).linesIn c = [libraryLine] := by
    rw [Passage.linesIn, if_neg hNot]
    rfl
  have hBodies : ∃ lines ≠ [],
      "\n\n\n".intercalate (m.pieces.map Piece.body) = "\n".intercalate lines ∧
        (bodyPassages c m.pieces).flatMap (Passage.linesIn c) = "" :: "" :: lines := by
    cases m.pieces with
    | nil => exact ⟨[""], by simp, by simp, by simp [bodyPassages, hPlain, Passage.linesIn]⟩
    | cons p ps =>
      refine ⟨_, ?_, plain_bodies hPlain p ps, ?_⟩
      · simp [Piece.passages, Passage.linesIn, hPlain, HandlerClass.lines]
      · simp [bodyPassages, hPlain, Passage.linesIn]
  obtain ⟨lines, hSome, hText, hLines⟩ := hBodies
  rw [Module.plainSource, Module.bodies, hText, intercalate_apart (by simp) hSome, Module.passages,
    List.flatMap_append, List.flatMap_append, List.flatMap_cons, hImports, hLibrary, hLines]
  simp [hPlain, Passage.linesIn]

end

section

variable [Limits] {c : Configuration} {m : Module}

/-- A module has a text unless it is formatted and holds something that is not well-formed or is
nested too deep. -/
theorem Module.source_eq : m.source c =
    if c.formatSource && !m.pieces.all Piece.isWellFormed then .error .malformedSource
    else if c.formatSource && !m.pieces.all Piece.isShallow then .error .nestedTooDeep
    else .ok ("\n".intercalate ((m.passages c).flatMap (Passage.linesIn c)) ++ "\n") := by
  cases hFormat : c.formatSource with
  | false =>
    rw [Module.source, hFormat, if_neg Bool.false_ne_true, plain_module hFormat]
    rfl
  | true =>
    rw [Module.source, hFormat, if_pos rfl, Module.wrappedSource]
    cases hFormed : m.pieces.all Piece.isWellFormed with
    | false => rfl
    | true =>
      rw [wrapped_module hFormat hFormed]
      rfl

theorem Module.text_eq {text : String} (h : m.source c = .ok text) :
    text = "\n".intercalate ((m.passages c).flatMap (Passage.linesIn c)) ++ "\n" := by
  rw [Module.source_eq] at h
  split at h
  · cases h
  · split at h
    · cases h
    · exact (Except.ok.inj h).symm

/-- The text of a module is made of the lines of its passages. -/
theorem Module.source_lines {text : String} (h : m.source c = .ok text) :
    ∃ rows, List.Forall₂ (Passage.Lines c) (m.passages c) rows ∧
      text = "\n".intercalate rows.flatten ++ "\n" := by
  refine ⟨_, forall₂_map_self (Passage.lines_linesIn c) (m.passages c), ?_⟩
  rw [← List.flatMap_def]
  exact Module.text_eq h

end

end EntityGraph.Handlers
