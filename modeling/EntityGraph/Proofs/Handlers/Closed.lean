import EntityGraph.Handlers
import EntityGraph.Proofs.Casing
import EntityGraph.Proofs.Compilation
import EntityGraph.Proofs.Handlers.Lines

/-!
# Names that a module leaves open

An import of the module binds the imported names, then runs the statements of each entity and
defines its class, whose annotations are evaluated on the way.  Every name that is evaluated is
there by then, but for three that only the literals of parameters hold: dates and moments are spelled
as calls into a calendar module, an infinity and a number that is none by the words for them, and
nothing is imported for any of these.

* `Module.steps`, `Module.unresolved`: what an import of a module does, and the names it misses;
* `Module.steps_of_source`: what it does is done by its lines, passage by passage;
* `Value.isSelfContained`: a value without dates, moments and numbers that are not finite;
* `Module.unresolved_eq`: the missing names are those of the parameters;
* `module_closed_iff`: a module misses no name exactly if every parameter is self-contained.
-/

namespace EntityGraph

open Outcome Expression

/-- The names that the language supplies. -/
def builtinNames : List String := [
  "ArithmeticError", "AssertionError", "AttributeError", "BaseException", "BaseExceptionGroup",
  "BlockingIOError", "BrokenPipeError", "BufferError", "BytesWarning", "ChildProcessError",
  "ConnectionAbortedError", "ConnectionError", "ConnectionRefusedError", "ConnectionResetError",
  "DeprecationWarning", "EOFError", "Ellipsis", "EncodingWarning", "EnvironmentError", "Exception",
  "ExceptionGroup", "FileExistsError", "FileNotFoundError", "FloatingPointError", "FutureWarning",
  "GeneratorExit", "IOError", "ImportError", "ImportWarning", "IndentationError", "IndexError",
  "InterruptedError", "IsADirectoryError", "KeyError", "KeyboardInterrupt", "LookupError",
  "MemoryError", "ModuleNotFoundError", "NameError", "NotADirectoryError", "NotImplemented",
  "NotImplementedError", "OSError", "OverflowError", "PendingDeprecationWarning",
  "PermissionError", "ProcessLookupError", "RecursionError", "ReferenceError", "ResourceWarning",
  "RuntimeError", "RuntimeWarning", "StopAsyncIteration", "StopIteration", "SyntaxError",
  "SyntaxWarning", "SystemError", "SystemExit", "TabError", "TimeoutError", "TypeError",
  "UnboundLocalError", "UnicodeDecodeError", "UnicodeEncodeError", "UnicodeError",
  "UnicodeTranslateError", "UnicodeWarning", "UserWarning", "ValueError", "Warning",
  "ZeroDivisionError", "abs", "aiter", "all", "anext", "any", "ascii", "bin", "bool", "breakpoint",
  "bytearray", "bytes", "callable", "chr", "classmethod", "compile", "complex", "delattr", "dict",
  "dir", "divmod", "enumerate", "eval", "exec", "filter", "float", "format", "frozenset", "getattr",
  "globals", "hasattr", "hash", "hex", "id", "input", "int", "isinstance", "issubclass", "iter",
  "len", "list", "locals", "map", "max", "memoryview", "min", "next", "object", "oct", "open",
  "ord", "pow", "print", "property", "range", "repr", "reversed", "round", "set", "setattr",
  "slice", "sorted", "staticmethod", "str", "sum", "super", "tuple", "type", "vars", "zip"]

/-! ## Values -/

namespace Value

/-- The names that literals may evaluate and that the language does not supply. -/
def openNames : List String := ["datetime", "inf", "nan"]

/-- The names in the literal of a value that the language does not supply. -/
def foreignNames (v : Value) : List String := v.names.filter fun n => !builtinNames.contains n

/-- A value with a literal of its own kind: none but dates, moments and numbers that are not finite
are without. -/
def hasOwnLiteral : Value → Bool
  | float (.finite ..) => true
  | float _ | date _ | moment _ => false
  | _ => true

mutual

/-- A value without dates, moments and numbers that are not finite. -/
def isSelfContained : Value → Bool
  | list xs | tuple xs | set xs => allSelfContained xs
  | map es => allEntriesSelfContained es
  | v => v.hasOwnLiteral

def allSelfContained : List Value → Bool
  | [] => true
  | x :: xs => isSelfContained x && allSelfContained xs

def allEntriesSelfContained : List (Value × Value) → Bool
  | [] => true
  | (k, v) :: es => isSelfContained k && isSelfContained v && allEntriesSelfContained es

end

/-- The values that a value is made of. -/
def parts : Value → List Value
  | list xs | tuple xs | set xs => xs
  | map es => es.flatMap fun e => [e.1, e.2]
  | _ => []

/-- The names that the literal of a value evaluates besides those of its parts. -/
def ownNames : Value → List String
  | float x => x.names
  | date _ => ["datetime"]
  | moment m => m.names
  | set [] => ["set"]
  | _ => []

theorem sizeOf_part {v x : Value} (h : x ∈ v.parts) : sizeOf x < sizeOf v := by
  cases v with
  | list xs | tuple xs | set xs =>
    have hPart : sizeOf x < sizeOf xs := List.sizeOf_lt_of_mem h
    simp only [list.sizeOf_spec, tuple.sizeOf_spec, set.sizeOf_spec]
    omega
  | map es =>
    obtain ⟨⟨k, w⟩, he, hx⟩ := List.mem_flatMap.mp h
    have hEntry := List.sizeOf_lt_of_mem he
    simp only [Prod.mk.sizeOf_spec, map.sizeOf_spec] at hEntry ⊢
    rcases List.mem_pair.mp hx with rfl | rfl <;> omega
  | _ => cases h

/-- What holds of a value if it holds of its parts holds of all values. -/
theorem partsInduction {P : Value → Prop} (h : ∀ v, (∀ x ∈ v.parts, P x) → P v) (v : Value) : P v :=
  h v fun x hx =>
    have _ : sizeOf x < sizeOf v := sizeOf_part hx
    partsInduction h x
termination_by sizeOf v

theorem namesOfItems_eq (xs : List Value) : namesOfItems xs = xs.flatMap names := by
  induction xs with
  | nil => rfl
  | cons x xs ih => rw [namesOfItems, ih, List.flatMap_cons]

theorem namesOfEntries_eq (es : List (Value × Value)) :
    namesOfEntries es = (es.flatMap fun e => [e.1, e.2]).flatMap names := by
  induction es with
  | nil => rfl
  | cons e es ih => simp [namesOfEntries, ih]

theorem names_eq (v : Value) : v.names = v.ownNames ++ v.parts.flatMap names := by
  cases v with
  | list xs | tuple xs => simp [names, ownNames, parts, namesOfItems_eq]
  | set xs => cases xs <;> simp [names, ownNames, parts, namesOfItems_eq]
  | map es => simp [names, ownNames, parts, namesOfEntries_eq]
  | _ => simp [names, ownNames, parts]

theorem isSelfContained_eq (v : Value) :
    v.isSelfContained = (v.hasOwnLiteral && v.parts.all isSelfContained) := by
  have hItems : ∀ xs, allSelfContained xs = xs.all isSelfContained := by
    intro xs
    induction xs with
    | nil => rfl
    | cons x xs ih => rw [allSelfContained, ih, List.all_cons]
  have hEntries : ∀ es : List (Value × Value), allEntriesSelfContained es =
      (es.flatMap fun e => [e.1, e.2]).all isSelfContained := by
    intro es
    induction es with
    | nil => rfl
    | cons e es ih => simp [allEntriesSelfContained, ih, Bool.and_assoc]
  cases v with
  | list xs | tuple xs | set xs => simp [isSelfContained, hasOwnLiteral, parts, hItems]
  | map es => simp [isSelfContained, hasOwnLiteral, parts, hEntries]
  | _ => simp [isSelfContained, parts]

theorem openNames_foreign : ∀ n ∈ openNames, n ∉ builtinNames := by decide +kernel

theorem set_builtin : "set" ∈ builtinNames := by decide +kernel

theorem mem_ownNames {v : Value} {n : String} (h : n ∈ v.ownNames) :
    n ∈ openNames ∧ v.hasOwnLiteral = false ∨ n = "set" ∧ v.hasOwnLiteral = true := by
  have hZone : ∀ m : Moment, ∀ n ∈ m.zoneNames, n = "datetime" := by
    intro m n hn
    unfold Moment.zoneNames at hn
    split at hn <;> simp_all
  cases v with
  | float x => cases x <;> simp_all [ownNames, Binary64.names, openNames, hasOwnLiteral]
  | date d => simp_all [ownNames, openNames, hasOwnLiteral]
  | moment m =>
    have hDate : n = "datetime" := by
      rcases List.mem_cons.mp h with rfl | hn
      · rfl
      · exact hZone m n hn
    simp [hDate, openNames, hasOwnLiteral]
  | set xs => cases xs <;> simp_all [ownNames, hasOwnLiteral]
  | _ => cases h

theorem ownNames_open {v : Value} (h : v.hasOwnLiteral = false) :
    ∃ n ∈ v.ownNames, n ∈ openNames := by
  cases v with
  | float x => cases x <;> simp_all [ownNames, Binary64.names, openNames, hasOwnLiteral]
  | date d => exact ⟨"datetime", .head _, .head _⟩
  | moment m => exact ⟨"datetime", .head _, .head _⟩
  | _ => cases h

/-- A literal evaluates no other names than the open ones and that of the empty set. -/
theorem mem_names (v : Value) : ∀ n ∈ v.names, n ∈ openNames ∨ n = "set" := by
  induction v using partsInduction with
  | h v ih =>
    intro n hn
    rw [names_eq, List.mem_append, List.mem_flatMap] at hn
    rcases hn with hOwn | ⟨x, hx, hn⟩
    · exact (mem_ownNames hOwn).imp And.left And.left
    · exact ih x hx n hn

theorem foreignNames_eq_nil_iff (v : Value) : v.foreignNames = [] ↔ v.isSelfContained = true := by
  induction v using partsInduction with
  | h v ih =>
    have hParts : v.foreignNames = [] ↔
        (∀ n ∈ v.ownNames, n ∈ builtinNames) ∧ ∀ x ∈ v.parts, x.foreignNames = [] := by
      rw [foreignNames, names_eq, List.filter_append, List.append_eq_nil_iff, List.filter_flatMap,
        List.flatMap_eq_nil_iff, List.filter_eq_nil_iff]
      simp [foreignNames]
    have hOwn : (∀ n ∈ v.ownNames, n ∈ builtinNames) ↔ v.hasOwnLiteral = true := by
      constructor
      · intro hBuiltin
        by_contra hNot
        obtain ⟨n, hn, hOpen⟩ := ownNames_open (Bool.eq_false_iff.mpr hNot)
        exact openNames_foreign n hOpen (hBuiltin n hn)
      · intro hPlain n hn
        rcases mem_ownNames hn with ⟨-, hNone⟩ | ⟨rfl, -⟩
        · exact absurd hPlain (Bool.eq_false_iff.mp hNone)
        · exact set_builtin
    rw [hParts, hOwn, isSelfContained_eq, Bool.and_eq_true, List.all_eq_true]
    exact and_congr_right fun _ => forall₂_congr ih

end Value

/-! ## What an import of the module does -/

namespace Handlers

/-- A step of running a module. -/
inductive Step where
  | binds (name : String)
  | evaluates (expression : String)

/-- The names that steps evaluate while nothing supplies them; `known` are the names bound before. -/
def unresolved (known : List String) : List Step → List String
  | [] => []
  | .binds name :: rest => unresolved (name :: known) rest
  | .evaluates expression :: rest =>
    (names expression.toList).filter (fun n => !known.contains n && !builtinNames.contains n) ++
      unresolved known rest

/-- The annotation of a parameter. -/
def annotation? (parameter : String) : Option String :=
  match parameter.toList.dropWhile (· ≠ ':') with
  | _ :: cs => some (String.ofList cs)
  | [] => none

/-- The text of a statement in a module, on one line or laid out. -/
def statementSource (c : Configuration) (s : Statement) : String :=
  if c.formatSource then "\n".intercalate (laidOut c.lineLength.toNat 0 (statementLeaves s))
  else s.text

/-- The definition of a class evaluates the annotations of its methods. -/
def HandlerClass.steps (c : HandlerClass) : List Step :=
  let parameters := c.initParameters ++ (c.methods.flatMap fun _ => methodParameters) ++
    bindParameters
  (parameters.filterMap annotation?).map .evaluates ++ [.binds c.name]

def Piece.steps (c : Configuration) (p : Piece) : List Step :=
  p.statements.map (fun s => .evaluates (statementSource c s)) ++ p.handlers.steps

namespace Module

/-- What an import of a module does: it binds the names of its imports and goes through its
contributions. -/
def steps (c : Configuration) (m : Module) : List Step :=
  (libraryNames ++ (distinctImports m.imports).map (·.name)).map .binds ++
    m.pieces.flatMap (Piece.steps c)

/-- The names that a module evaluates and nothing supplies. -/
def unresolved (c : Configuration) (m : Module) : List String :=
  Handlers.unresolved [] (m.steps c)

end Module

/-! ## Steps and lines -/

/-- What is done when the lines of a passage are run: an import binds its names, a statement is
evaluated as it is written, and a class evaluates the annotations in the heads of its methods. -/
def Passage.steps : Passage → List String → List Step
  | .blank, _ => []
  | .imports _ names, _ => names.map .binds
  | .statement _, lines => [.evaluates ("\n".intercalate lines)]
  | .handlers k, _ =>
    let parameters := ["self", k.holder ++ ": " ++ k.service] ++
      (k.methods.flatMap fun _ => ["self", "obj", "info", "input"]) ++
        ["self", "query: QueryType", "mutation: MutationType"]
    (parameters.filterMap annotation?).map .evaluates ++ [.binds k.name]

namespace Passage

variable (c : Configuration)

/-- The steps of a passage as it is written in a module. -/
def stepsIn (p : Passage) : List Step := p.steps (p.linesIn c)

theorem stepsIn_statement (s : Statement) :
    (Passage.statement s).stepsIn c = [.evaluates (statementSource c s)] := by
  rw [stepsIn, linesIn, steps, statementSource]
  split <;> simp

theorem stepsIn_handlers (k : HandlerClass) : (Passage.handlers k).stepsIn c = k.steps := rfl

end Passage

theorem Piece.stepsIn_passages (c : Configuration) (p : Piece) :
    p.passages.flatMap (Passage.stepsIn c) = p.steps c := by
  have hStatements : (p.statements.map Passage.statement).flatMap (Passage.stepsIn c) =
      p.statements.map fun s => .evaluates (statementSource c s) := by
    rw [List.flatMap_map, List.map_eq_flatMap]
    exact List.flatMap_congr fun s _ => Passage.stepsIn_statement c s
  have hBlanks : (if p.statements.isEmpty then [] else [.blank, .blank]).flatMap
      (Passage.stepsIn c) = [] := by
    split <;> rfl
  rw [Piece.passages, List.flatMap_append, List.flatMap_append, hStatements, hBlanks,
    List.flatMap_singleton, Passage.stepsIn_handlers, List.append_nil, Piece.steps]

theorem Module.stepsIn_passages (c : Configuration) (m : Module) :
    (m.passages c).flatMap (Passage.stepsIn c) = m.steps c := by
  have hHead : (Passage.imports libraryPath libraryNames).stepsIn c = libraryNames.map .binds := rfl
  have hBlank : (if c.formatSource && m.pieces.isEmpty then [] else [.blank]).flatMap
      (Passage.stepsIn c) = [] := by
    split <;> rfl
  have hImports : ((distinctImports m.imports).map (Import.passage c)).flatMap
      (Passage.stepsIn c) = ((distinctImports m.imports).map (·.name)).map .binds := by
    rw [List.flatMap_map, List.map_map, List.map_eq_flatMap]
    rfl
  have hBodies : (bodyPassages c m.pieces).flatMap (Passage.stepsIn c) =
      m.pieces.flatMap (Piece.steps c) := by
    cases m.pieces with
    | nil =>
      rw [bodyPassages]
      split <;> rfl
    | cons p ps =>
      have hGap : (if c.formatSource && !p.statements.isEmpty then [.blank]
          else [.blank, .blank]).flatMap (Passage.stepsIn c) = [] := by
        split <;> rfl
      have hOthers : (ps.flatMap fun q => .blank :: .blank :: q.passages).flatMap
          (Passage.stepsIn c) = ps.flatMap (Piece.steps c) := by
        rw [List.flatMap_assoc]
        exact List.flatMap_congr fun q _ => q.stepsIn_passages c
      rw [bodyPassages, List.flatMap_append, List.flatMap_append, hGap, p.stepsIn_passages c,
        hOthers, List.flatMap_cons, List.nil_append]
  rw [Module.passages, List.flatMap_append, List.flatMap_append, List.flatMap_cons, hHead, hBlank,
    hImports, hBodies, Module.steps, List.map_append, List.append_nil]

/-- The steps of a module are those of its lines, passage by passage. -/
theorem Module.steps_of_source [Limits] {c : Configuration} {m : Module} {text : String}
    (h : m.source c = .ok text) :
    ∃ rows, List.Forall₂ (Passage.Lines c) (m.passages c) rows ∧
      text = "\n".intercalate rows.flatten ++ "\n" ∧
      m.steps c = (List.zipWith Passage.steps (m.passages c) rows).flatten := by
  refine ⟨_, forall₂_map_self (Passage.lines_linesIn c) (m.passages c), ?_, ?_⟩
  · rw [← List.flatMap_def]
    exact Module.text_eq h
  · rw [List.zipWith_map_right, List.zipWith_self, ← m.stepsIn_passages c, List.flatMap_def]
    rfl

/-! ## Imported names -/

/-- The line of an import tells the name. -/
theorem Import.name_of_line {i j : Import} (hi : ' ' ∉ i.name.toList) (hj : ' ' ∉ j.name.toList)
    (h : i.line = j.line) : i.name = j.name := by
  have hLast : ∀ k : Import, ' ' ∉ k.name.toList →
      k.line.toList.reverse.takeWhile (· ≠ ' ') = k.name.toList.reverse := by
    intro k hk
    have hText : k.line.toList =
        "from ".toList ++ k.path.toList ++ " import".toList ++ ' ' :: k.name.toList := by
      simp [line]
    have hWord : ∀ c ∈ k.name.toList.reverse, decide (c ≠ ' ') = true := by
      intro c hc
      rw [decide_eq_true_eq]
      rintro rfl
      exact hk (List.mem_reverse.mp hc)
    rw [hText, List.reverse_append, List.reverse_cons, List.append_assoc,
      List.takeWhile_append_of_pos hWord]
    simp
  have hNames : i.name.toList.reverse = j.name.toList.reverse := by rw [← hLast i hi, h, hLast j hj]
  exact String.toList_inj.mp (List.reverse_inj.mp hNames)

/-- Imports whose names hold no blanks keep all their names when repeated lines are left out. -/
theorem mem_names_distinctImports {imports : List Import}
    (hNames : ∀ i ∈ imports, ' ' ∉ i.name.toList) {n : String} :
    n ∈ (distinctImports imports).map (·.name) ↔ n ∈ imports.map (·.name) := by
  obtain ⟨hFrom, hLines⟩ := distinctImports_spec imports
  constructor
  · intro hn
    obtain ⟨i, hi, rfl⟩ := List.mem_map.mp hn
    exact List.mem_map_of_mem (hFrom i hi)
  · intro hn
    obtain ⟨i, hi, rfl⟩ := List.mem_map.mp hn
    obtain ⟨j, hj, hLine⟩ := hLines i hi
    rw [← Import.name_of_line (hNames j (hFrom j hj)) (hNames i hi) hLine]
    exact List.mem_map_of_mem hj

/-! ## Names of statements and classes -/

/-- A word that is a name and starts with no small letter. -/
def isCapitalWord (word : String) : Bool :=
  word.toList.all Char.isAlphanum && wordNames word.toList == [word] &&
    word.toList.head?.all fun c => !c.isLower

theorem isCapitalWord_spec {word : String} (h : isCapitalWord word = true) :
    (∀ c ∈ word.toList, c.isAlphanum = true) ∧ wordNames word.toList = [word] ∧
      ∀ c ∈ word.toList.head?, c.isLower = false := by
  simpa [isCapitalWord, and_assoc, Option.all_eq_true] using h

theorem table_isCapitalWord : (Signature.table.map (·.1)).all isCapitalWord = true := by
  decide +kernel

theorem kind_isCapitalWord {kind : String} (h : isValidatorKind kind = true) :
    isCapitalWord kind = true :=
  List.all_eq_true.mp table_isCapitalWord kind (mem_kinds h)

/-- A name without a small letter at its start is none of the open ones. -/
theorem not_open {name : String} (h : ∀ c ∈ name.toList.head?, c.isLower = false) :
    name ∉ Value.openNames := by
  intro hOpen
  simp only [Value.openNames, List.mem_cons, List.not_mem_nil, or_false] at hOpen
  rcases hOpen with rfl | rfl | rfl
  · cases h 'd' rfl
  · cases h 'i' rfl
  · cases h 'n' rfl

section Statements

variable {s : Statement} (h : isValidatorKind s.kind = true)

include h

theorem reads_kind : Reads s.kind.toList [s.kind] := by
  obtain ⟨hChars, hName, -⟩ := isCapitalWord_spec (kind_isCapitalWord h)
  have hWord := Reads.word (isWord_of_isAlphanum hChars)
  rwa [hName] at hWord

theorem reads_text : Reads s.text.toList (s.kind :: s.parameters.flatMap Value.names) := by
  have hQuoted : ∀ t : String, Reads (Literal.quoted t).toList [] := fun t =>
    reads_literal (.text t)
  have hPlaces := (hQuoted s.target).append (c := ',') (by decide)
    (.cons (c := ' ') (by decide) (hQuoted s.field))
  have hParameters := reads_joined isSeparator_comma
    fun p (_ : p ∈ s.parameters) => reads_literal p
  have hTarget := reads_enclosed (a := '(') (b := ')') (by decide) (by decide) hPlaces
  have hCall := (reads_kind h).append (c := '(') (by decide)
    (hParameters.append (c := ')') (by decide) hTarget)
  simpa [Statement.text] using hCall

/-- A statement evaluates its kind and what its parameters evaluate, however it is laid out. -/
theorem names_statementSource (c : Configuration) :
    names (statementSource c s).toList = s.kind :: s.parameters.flatMap Value.names := by
  have hSource : Reads (statementSource c s).toList
      (s.kind :: s.parameters.flatMap Value.names) := by
    rw [statementSource]
    split
    · exact reads_laidOut _ 0 (spells_statementLeaves (reads_kind h))
    · exact reads_text h
  exact hSource.names_eq

end Statements

/-! ## Annotations -/

theorem annotation?_eq {name : String} (h : ∀ c ∈ name.toList, c ≠ ':') (type : String) :
    annotation? (name ++ ": " ++ type) = some (" " ++ type) := by
  have hText : (name ++ ": " ++ type).toList = name.toList ++ ':' :: ' ' :: type.toList := by simp
  have hRest : (name ++ ": " ++ type).toList.dropWhile (· ≠ ':') = ':' :: ' ' :: type.toList := by
    rw [hText, List.dropWhile_append_of_pos (by simpa using h)]
    simp
  rw [annotation?, hRest]
  simp

theorem names_annotation {type : String} (h : ∀ c ∈ type.toList, c.isAlphanum = true) :
    ∀ n ∈ names (" " ++ type).toList, n = type := by
  have hWord : Reads type.toList (wordNames type.toList) :=
    .word (isWord_of_isAlphanum h)
  have hText : (" " ++ type).toList = ' ' :: type.toList := by simp
  have hRead : Reads (" " ++ type).toList (wordNames type.toList) := by
    rw [hText]
    exact .cons (by decide) hWord
  have hFirst : type.toList.takeWhile (· ≠ '.') = type.toList := by
    refine List.takeWhile_eq_self_iff.mpr fun c hc => ?_
    rw [decide_eq_true_eq]
    rintro rfl
    cases h '.' hc
  intro n hn
  rw [hRead.names_eq, wordNames, hFirst] at hn
  split at hn
  · cases hn
  · simpa using hn

theorem filterMap_methodParameters : methodParameters.filterMap annotation? = [] := by
  decide +kernel

theorem filterMap_bindParameters :
    bindParameters.filterMap annotation? = [" " ++ "QueryType", " " ++ "MutationType"] := by
  decide +kernel

/-- A class evaluates the name of its service and those of the library. -/
theorem steps_of_class {c : HandlerClass} (hHolder : ∀ d ∈ c.holder.toList, d ≠ ':') :
    c.steps = [.evaluates (" " ++ c.service), .evaluates (" " ++ "QueryType"),
      .evaluates (" " ++ "MutationType"), .binds c.name] := by
  have hSelf : annotation? "self" = none := by decide +kernel
  have hMethods : (c.methods.flatMap fun _ => methodParameters).filterMap annotation? = [] := by
    rw [List.filterMap_flatMap]
    simp [filterMap_methodParameters]
  rw [HandlerClass.steps]
  simp only [HandlerClass.initParameters, List.filterMap_append, hMethods,
    filterMap_bindParameters, List.filterMap_cons, hSelf, annotation?_eq hHolder]
  rfl

/-! ## Missing names -/

theorem unresolved_binds (known names : List String) (rest : List Step) :
    unresolved known (names.map .binds ++ rest) = unresolved (names.reverse ++ known) rest := by
  induction names generalizing known with
  | nil => rfl
  | cons n names ih =>
    rw [List.map_cons, List.cons_append, unresolved, ih]
    simp

theorem unresolved_evaluates {known : List String} {e : String} (rest : List Step)
    (h : ∀ n ∈ names e.toList, n ∈ known) :
    unresolved known (.evaluates e :: rest) = unresolved known rest := by
  have hNone : (names e.toList).filter
      (fun n => !known.contains n && !builtinNames.contains n) = [] := by
    refine List.filter_eq_nil_iff.mpr fun n hn => ?_
    simp [h n hn]
  rw [unresolved, hNone, List.nil_append]

/-- A literal misses its foreign names if none of the open names is known. -/
theorem filter_names {known : List String} (hOpen : ∀ n ∈ Value.openNames, n ∉ known) (v : Value) :
    v.names.filter (fun n => !known.contains n && !builtinNames.contains n) = v.foreignNames := by
  refine List.filter_congr fun n hn => ?_
  rcases v.mem_names n hn with hForeign | rfl
  · simp [hOpen n hForeign]
  · simp [Value.set_builtin]

/-- What a contribution needs to find when it runs. -/
structure Supplied (known : List String) (p : Piece) : Prop where
  kinds : ∀ s ∈ p.statements, isValidatorKind s.kind = true ∧ s.kind ∈ known
  service : (∀ c ∈ p.handlers.service.toList, c.isAlphanum = true) ∧ p.handlers.service ∈ known
  holder : ∀ c ∈ p.handlers.holder.toList, c ≠ ':'
  library : ∀ n ∈ libraryNames, n ∈ known

theorem Supplied.mono {known known' : List String} {p : Piece} (h : Supplied known p)
    (hSubset : known ⊆ known') : Supplied known' p :=
  ⟨fun s hs => (h.kinds s hs).imp id fun hMem => hSubset hMem,
    h.service.imp id fun hMem => hSubset hMem, h.holder, fun n hn => hSubset (h.library n hn)⟩

/-- The names in a contribution's parameters that the language does not supply. -/
def Piece.foreignNames (p : Piece) : List String :=
  p.statements.flatMap fun s => s.parameters.flatMap Value.foreignNames

theorem unresolved_statements (c : Configuration) {known : List String} {ss : List Statement}
    (hKinds : ∀ s ∈ ss, isValidatorKind s.kind = true ∧ s.kind ∈ known)
    (hOpen : ∀ n ∈ Value.openNames, n ∉ known) (rest : List Step) :
    unresolved known (ss.map (fun s => .evaluates (statementSource c s)) ++ rest) =
      (ss.flatMap fun s => s.parameters.flatMap Value.foreignNames) ++ unresolved known rest := by
  induction ss with
  | nil => rfl
  | cons s ss ih =>
    obtain ⟨⟨hKind, hKnown⟩, hLater⟩ := List.forall_mem_cons.mp hKinds
    have hMissing : (names (statementSource c s).toList).filter
        (fun n => !known.contains n && !builtinNames.contains n) =
          s.parameters.flatMap Value.foreignNames := by
      rw [names_statementSource hKind c, List.filter_cons_of_neg (by simp [hKnown]),
        List.filter_flatMap]
      exact List.flatMap_congr fun v _ => filter_names hOpen v
    rw [List.map_cons, List.cons_append, unresolved, hMissing, ih hLater, List.flatMap_cons,
      List.append_assoc]

/-- A contribution misses the foreign names of its parameters and binds the name of its class. -/
theorem unresolved_piece (c : Configuration) {known : List String} {p : Piece}
    (h : Supplied known p) (hOpen : ∀ n ∈ Value.openNames, n ∉ known) (rest : List Step) :
    unresolved known (p.steps c ++ rest) =
      p.foreignNames ++ unresolved (p.handlers.name :: known) rest := by
  have hService : ∀ n ∈ names (" " ++ p.handlers.service).toList, n ∈ known := by
    intro n hn
    obtain rfl := names_annotation h.service.1 n hn
    exact h.service.2
  have hLibrary : ∀ n ∈ libraryNames, ∀ m ∈ names (" " ++ n).toList, m ∈ known := by
    have hWords : libraryNames.all isCapitalWord = true := by decide +kernel
    intro n hn m hm
    have hWord := isCapitalWord_spec (List.all_eq_true.mp hWords n hn)
    obtain rfl := names_annotation hWord.1 m hm
    exact h.library m hn
  rw [Piece.steps, List.append_assoc, unresolved_statements c h.kinds hOpen,
    steps_of_class h.holder, List.cons_append, unresolved_evaluates _ hService, List.cons_append,
    unresolved_evaluates _ (hLibrary "QueryType" (.tail _ (.head _))), List.cons_append,
    unresolved_evaluates _ (hLibrary "MutationType" (.head _))]
  rfl

theorem unresolved_pieces (c : Configuration) {known : List String} {pieces : List Piece}
    (h : ∀ p ∈ pieces, Supplied known p) (hClasses : ∀ p ∈ pieces, p.handlers.name ∉ Value.openNames)
    (hOpen : ∀ n ∈ Value.openNames, n ∉ known) :
    unresolved known (pieces.flatMap (Piece.steps c)) = pieces.flatMap Piece.foreignNames := by
  induction pieces generalizing known with
  | nil => rfl
  | cons p pieces ih =>
    obtain ⟨hFirst, hLater⟩ := List.forall_mem_cons.mp h
    obtain ⟨hClass, hOthers⟩ := List.forall_mem_cons.mp hClasses
    have hStill : ∀ n ∈ Value.openNames, n ∉ p.handlers.name :: known := by
      intro n hn hMem
      rcases List.mem_cons.mp hMem with rfl | hMem
      · exact hClass hn
      · exact hOpen n hn hMem
    rw [List.flatMap_cons, unresolved_piece c hFirst hOpen, List.flatMap_cons,
      ih (fun q hq => (hLater q hq).mono (List.subset_cons_self _ _)) hOthers hStill]

end Handlers

/-! ## Contributions of entities -/

/-- The parameters that the statement of a validator gets. -/
def Validator.parameters (v : Validator) : List Value :=
  ((signature? v.kind).map (·.parameters v.bag)).getD []

/-- An entity all of whose validators have self-contained parameters. -/
def Model.IsSelfContained (m : Model) : Prop :=
  ∀ o ∈ m.operations, ∀ a ∈ o.arguments, ∀ v ∈ a.validators, ∀ x ∈ v.parameters,
    x.isSelfContained = true

namespace Handlers

theorem Piece.statement_spec [Limits] {target field : String} {v : Validator} {s : Statement}
    (h : statement target field v = .ok s) : isValidatorKind v.kind = true ∧ s.kind = v.kind ∧
      s.parameters = v.parameters := by
  obtain ⟨hStatement, -⟩ := Piece.statement_eq_ok.mp h
  obtain ⟨signature, hSignature, rfl⟩ := Option.map_eq_some_iff.mp hStatement
  exact ⟨by rw [isValidatorKind, hSignature]; rfl, rfl, by rw [Validator.parameters, hSignature]; rfl⟩

variable {config : Configuration} {m : Model} {p : Piece}

/-- A contribution has no foreign names exactly if its entity is self-contained. -/
theorem foreignNames_eq_nil_iff [Limits] (h : render config m = .ok p) :
    p.foreignNames = [] ↔ m.IsSelfContained := by
  simp only [Piece.foreignNames, List.flatMap_eq_nil_iff, Value.foreignNames_eq_nil_iff]
  constructor
  · intro hStatements o ho a ha v hv x hx
    obtain ⟨kind, -, s, hs, hMade⟩ := Piece.statement_made h ho ha hv
    obtain ⟨-, -, hParameters⟩ := Piece.statement_spec hMade
    exact hStatements s hs x (hParameters ▸ hx)
  · intro hModel s hs x hx
    obtain ⟨o, ho, kind, -, a, ha, v, hv, hMade⟩ := Piece.statement_origin h hs
    obtain ⟨-, -, hParameters⟩ := Piece.statement_spec hMade
    exact hModel o ho a ha v hv x (hParameters ▸ hx)

theorem render_imports [Limits] (h : render config m = .ok p) :
    p.imports = Piece.importsOf config.servicePackage config.validatorModule m := by
  obtain ⟨ss, handlers, -, -, rfl⟩ := Piece.ofModel_eq_ok.mp h
  rfl

theorem render_class [Limits] (h : render config m = .ok p) :
    p.handlers.name = Naming.resolverClass m.name ∧
      p.handlers.service = Naming.serviceClass m.name ∧
      p.handlers.holder = Naming.serviceAttribute m.name := by
  obtain ⟨ss, handlers, -, hClass, rfl⟩ := Piece.ofModel_eq_ok.mp h
  obtain ⟨xs, -, hEq⟩ := bind_eq_ok.mp hClass
  obtain rfl := pure_eq_ok.mp hEq
  exact ⟨rfl, rfl, rfl⟩

/-- An imported name is a word of letters and digits without a small letter at its start. -/
theorem imported_spec [Limits] (h : render config m = .ok p) {i : Import} (hi : i ∈ p.imports) :
    (∀ c ∈ i.name.toList, c.isAlphanum = true) ∧ i.name ∉ Value.openNames := by
  rw [render_imports h, Piece.importsOf] at hi
  rcases List.mem_cons.mp hi with rfl | hi
  · exact ⟨fun c hc => Naming.mem_pascalCase hc, not_open fun c hc => Naming.pascalCase_head hc⟩
  · obtain ⟨⟨field, v⟩, hv, rfl⟩ := List.mem_map.mp hi
    obtain ⟨o, ho, hPair⟩ := List.mem_flatMap.mp hv
    obtain ⟨a, ha, -, hv⟩ := Piece.mem_validatorsOf.mp hPair
    obtain ⟨kind, -, s, -, hMade⟩ := Piece.statement_made h ho ha hv
    have hKind := kind_isCapitalWord (Piece.statement_spec hMade).1
    obtain ⟨hChars, -, hHead⟩ := isCapitalWord_spec hKind
    exact ⟨hChars, not_open hHead⟩

/-- The imports of a contribution supply all it needs, with those of the library. -/
theorem supplied_of_render [Limits] (h : render config m = .ok p) {known : List String}
    (hLibrary : ∀ n ∈ libraryNames, n ∈ known) (hImports : ∀ i ∈ p.imports, i.name ∈ known) :
    Supplied known p := by
  obtain ⟨-, hService, hHolder⟩ := render_class h
  rw [render_imports h] at hImports
  refine ⟨fun s hs => ?_, ⟨fun c hc => ?_, ?_⟩, fun c hc => ?_, hLibrary⟩
  · obtain ⟨o, ho, kind, -, a, ha, v, hv, hMade⟩ := Piece.statement_origin h hs
    obtain ⟨hKnown, hKind, -⟩ := Piece.statement_spec hMade
    have hPair : (a.name, v) ∈ m.operations.flatMap Piece.validatorsOf :=
      List.mem_flatMap.mpr ⟨o, ho, Piece.mem_validatorsOf.mpr ⟨a, ha, rfl, hv⟩⟩
    have hImported := hImports _ (.tail _ (List.mem_map_of_mem hPair))
    exact ⟨hKind ▸ hKnown, hKind ▸ hImported⟩
  · rw [hService] at hc
    exact Naming.mem_pascalCase hc
  · rw [hService]
    exact hImports _ (.head _)
  · rw [hHolder] at hc
    rintro rfl
    rcases Naming.mem_snakeCase hc with hWord | hLine
    · cases hWord
    · cases hLine

/-- The names that a module misses are the foreign names of its parameters. -/
theorem Module.unresolved_eq [Limits] {models : List Model} {pieces : List Piece}
    (h : models.mapM (render config) = .ok pieces) :
    (Module.mk pieces "").unresolved config = pieces.flatMap Piece.foreignNames := by
  have hRender : ∀ p ∈ pieces, ∃ m, render config m = .ok p := fun p hp =>
    (mapM_mem h hp).imp fun m hm => hm.2
  have hImported : ∀ i ∈ (Module.mk pieces "").imports,
      (∀ c ∈ i.name.toList, c.isAlphanum = true) ∧ i.name ∉ Value.openNames := by
    intro i hi
    obtain ⟨p, hp, hi⟩ := List.mem_flatMap.mp hi
    obtain ⟨m, hm⟩ := hRender p hp
    exact imported_spec hm hi
  have hBlanks : ∀ i ∈ (Module.mk pieces "").imports, ' ' ∉ i.name.toList := by
    intro i hi hBlank
    cases (hImported i hi).1 ' ' hBlank
  have hNames := @mem_names_distinctImports _ hBlanks
  rw [Module.unresolved, Module.steps, unresolved_binds, List.append_nil]
  refine unresolved_pieces config (fun p hp => ?_) (fun p hp => ?_) fun n hn hMem => ?_
  · obtain ⟨m, hm⟩ := hRender p hp
    refine supplied_of_render hm (fun n hn => ?_) fun i hi => ?_
    · exact List.mem_reverse.mpr (List.mem_append_left _ hn)
    · have hName : i.name ∈ (Module.mk pieces "").imports.map (·.name) :=
        List.mem_map_of_mem (List.mem_flatMap.mpr ⟨p, hp, hi⟩)
      exact List.mem_reverse.mpr (List.mem_append_right _ (hNames.mpr hName))
  · obtain ⟨m, hm⟩ := hRender p hp
    rw [(render_class hm).1]
    exact not_open fun c hc => Naming.pascalCase_head hc
  · have hLibrary : ∀ n ∈ Value.openNames, n ∉ libraryNames := by decide +kernel
    rcases List.mem_append.mp (List.mem_reverse.mp hMem) with hMem | hMem
    · exact hLibrary n hn hMem
    · obtain ⟨i, hi, rfl⟩ := List.mem_map.mp (hNames.mp hMem)
      exact (hImported i hi).2 hn

end Handlers

/-! ## All outputs -/

/-- The only names that a compiled module may miss are the open ones, and it misses none exactly if
all its entities are self-contained. -/
theorem module_closed_iff [Limits] {config : Configuration} {scalars : Option (List String)}
    {models : List Model} {output : Output}
    (h : (compile config scalars models).value = .ok output) :
    ∃ pieces, models.mapM (Handlers.render config) = .ok pieces ∧
      (Handlers.Module.mk pieces "").source config = .ok output.source ∧
      (∀ n ∈ (Handlers.Module.mk pieces "").unresolved config, n ∈ Value.openNames) ∧
      ((Handlers.Module.mk pieces "").unresolved config = [] ↔ ∀ m ∈ models, m.IsSelfContained) := by
  obtain ⟨registry, pieces, -, hPieces, -, -, hSource⟩ := compile_eq_ok.mp h
  have hMissing := Handlers.Module.unresolved_eq hPieces
  refine ⟨pieces, hPieces, hSource, fun n hn => ?_, ?_⟩
  · rw [hMissing] at hn
    obtain ⟨p, -, hn⟩ := List.mem_flatMap.mp hn
    obtain ⟨s, -, hn⟩ := List.mem_flatMap.mp hn
    obtain ⟨v, -, hn⟩ := List.mem_flatMap.mp hn
    obtain ⟨hName, hForeign⟩ := List.mem_filter.mp hn
    rcases v.mem_names n hName with hOpen | rfl
    · exact hOpen
    · simp [Value.set_builtin] at hForeign
  · rw [hMissing, List.flatMap_eq_nil_iff]
    constructor
    · intro hNone m hm
      obtain ⟨p, hp, hRender⟩ := mem_mapM hPieces hm
      exact (Handlers.foreignNames_eq_nil_iff hRender).mp (hNone p hp)
    · intro hModels p hp
      obtain ⟨m, hm, hRender⟩ := mapM_mem hPieces hp
      exact (Handlers.foreignNames_eq_nil_iff hRender).mpr (hModels m hm)

/-- An entity that can be created from the year 2020 on. -/
def datedBook : Model :=
  ⟨"Book", [⟨"title", "String", false, true, false, []⟩], [],
    [⟨"add", "Create", [⟨"printed", "DateTime", false, true,
      [⟨"MinDate", [(.text "date", .date ⟨2020, 1, 1⟩)]⟩]⟩], []⟩]⟩

/-- Its module is compiled, and the bound of its argument is spelled with a name that is missing. -/
theorem datedBook_not_closed : ∃ output pieces,
    (compile {} none [datedBook]).value = .ok output ∧
      (Handlers.Module.mk pieces "").source {} = .ok output.source ∧
      (Handlers.Module.mk pieces "").unresolved {} ≠ [] := by
  have hDone : (compile {} none [datedBook]).value.isOk = true := by decide +kernel
  cases hOutput : (compile {} none [datedBook]).value with
  | error failure =>
    rw [hOutput] at hDone
    cases hDone
  | ok output =>
    obtain ⟨pieces, -, hSource, -, hClosed⟩ := module_closed_iff hOutput
    refine ⟨output, pieces, rfl, hSource, fun hNone => ?_⟩
    have hModel := hClosed.mp hNone datedBook (.head _)
    have hParameters : (Validator.mk "MinDate" [(.text "date", .date ⟨2020, 1, 1⟩)]).parameters =
        [.date ⟨2020, 1, 1⟩] := by rfl
    have hDate := hModel _ (.head _) _ (.head _) _ (.head _) (.date ⟨2020, 1, 1⟩)
      (hParameters ▸ .head _)
    cases hDate

end EntityGraph
