import EntityGraph.Input.Definitions

/-!
# Manifests

The texts that a run produces and the manifest that lists them.  The metrics of an artifact always
describe its content, whatever is assigned to them.

* `Artifact.lines`, `Artifact.bytes`: the metrics;
* `Artifact.make`: an artifact from a name and a content;
* `Manifest.add`, `Manifest.find?`: a manifest written and read by name.
-/

namespace EntityGraph

/-- A text that a run produced, with its metrics. -/
structure Artifact where
  name : String
  content : String
  lineCount : Int
  byteCount : Int
deriving Inhabited

namespace Artifact

/-- The number of lines of a text; a last line needs no line break. -/
def lines (content : String) : Nat :=
  let cs := content.toList
  cs.count '\n' + (if cs.isEmpty || cs.getLast? == some '\n' then 0 else 1)

def bytes (content : String) : Nat := content.utf8ByteSize

/-- An artifact with the metrics of its content. -/
def settle (a : Artifact) : Artifact :=
  { a with lineCount := lines a.content, byteCount := bytes a.content }

def record : Input.Record Artifact where
  title := "GeneratedArtifact"
  blank := ⟨"", "", 0, 0⟩
  settle := settle
  fields := [
    .of "name" true Input.nonEmptyText (fun x a => { a with name := x }) fun a => .text a.name,
    .of "content" true Input.text (fun x a => { a with content := x }) fun a => .text a.content,
    .of "line_count" false (Input.atLeast 0) (fun x a => { a with lineCount := x })
      fun a => .int a.lineCount,
    .of "size_bytes" false (Input.atLeast 0) (fun x a => { a with byteCount := x })
      fun a => .int a.byteCount]

/-- An artifact from its name and its content; the name must not be empty. -/
def make (name content : String) : Checked Artifact :=
  record.read (Value.record [("name", .text name), ("content", .text content)])

/-- An artifact with a name known not to be empty. -/
def ofContent (name content : String) : Artifact := settle ⟨name, content, 0, 0⟩

def describe (a : Artifact) : String :=
  fieldsText "GeneratedArtifact" ((record.declared a).map fun f => (f.1, f.2.literal))

end Artifact

/-- The artifacts of one run, and whether it succeeded. -/
structure Manifest where
  artifacts : List Artifact := []
  success : Bool := true
  errors : List String := []
deriving Inhabited

namespace Manifest

def totalLines (m : Manifest) : Int := (m.artifacts.map (·.lineCount)).foldr (· + ·) 0

def record : Input.Record Manifest where
  title := "GenerationResult"
  blank := {}
  fields := [
    Input.listField "artifacts" false Artifact.record (fun x m => { m with artifacts := x })
      (·.artifacts),
    Input.flag "success" (fun x m => { m with success := x }) (·.success),
    .of "errors" false (Input.listOf Input.text) (fun x m => { m with errors := x })
      fun m => .texts m.errors]
  computed m := [("total_lines", .int m.totalLines)]

def append (m : Manifest) (more : List Artifact) : Manifest :=
  { m with artifacts := m.artifacts ++ more }

def add (m : Manifest) (name content : String) : Checked Manifest :=
  (Artifact.make name content).map fun a => m.append [a]

def find? (m : Manifest) (name : String) : Option String :=
  (m.artifacts.find? fun a => a.name == name).map (·.content)

def describe (m : Manifest) : String :=
  "<GenerationResult " ++ toString m.artifacts.length ++ " artifacts, " ++
    (if m.success then "OK" else "FAILED") ++ ">"

end Manifest

end EntityGraph
