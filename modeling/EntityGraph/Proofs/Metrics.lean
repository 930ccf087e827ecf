import EntityGraph.Manifest
import EntityGraph.Proofs.Input.Definitions
import Mathlib

/-!
# Metrics of artifacts

The metrics of an artifact are made again whenever it is read and whenever an attribute of it is
assigned, so they are those of its content at any time, whatever was given for them.  A manifest adds
up the lines of its artifacts.

* `Lined`, `HasLines`: a text as terminated lines and what follows the last line break;
* `Input.Record.Assignment`: an assignment to one attribute;
* `Input.Record.Invariant`: what a record has after it was read and after every assignment;
* `Artifact.Measured`: metrics that describe the content;
* `Manifest.artifacts_addAll`: the artifacts after several were added;
* `metrics_describe`: artifacts and manifests with any history.
-/

namespace EntityGraph

open Outcome

/-! ## Lines -/

/-- A text as lines that end with a line break, and a last part without one. -/
structure Lined (cs : List Char) (terminated : List (List Char)) (last : List Char) : Prop where
  joined : cs = terminated.flatMap (· ++ ['\n']) ++ last
  unbroken : ∀ l ∈ terminated, '\n' ∉ l
  unended : '\n' ∉ last

namespace Lined

variable {cs : List Char} {terminated : List (List Char)} {last : List Char}

/-- Every text falls into such lines. -/
theorem exists_lined (cs : List Char) : ∃ terminated last, Lined cs terminated last := by
  induction cs using List.reverseRecOn with
  | nil => exact ⟨[], [], rfl, by simp, by simp⟩
  | append_singleton cs c ih =>
    obtain ⟨terminated, last, h⟩ := ih
    by_cases hBreak : c = '\n'
    · -- The break ends the last part.
      refine ⟨terminated ++ [last], [], ?_, ?_, by simp⟩
      · rw [List.flatMap_append, List.flatMap_singleton, List.append_nil, h.joined, hBreak,
          List.append_assoc]
      · intro l hl
        rcases List.mem_append.mp hl with hl | hl
        · exact h.unbroken l hl
        · exact List.mem_singleton.mp hl ▸ h.unended
    · refine ⟨terminated, last ++ [c], ?_, h.unbroken, ?_⟩
      · rw [← List.append_assoc, ← h.joined]
      · rw [List.mem_append, List.mem_singleton, not_or]
        exact ⟨h.unended, fun hSame => hBreak hSame.symm⟩

/-- There is one line break for each terminated line. -/
theorem count (h : Lined cs terminated last) : cs.count '\n' = terminated.length := by
  rw [h.joined, List.count_append, List.count_eq_zero_of_not_mem h.unended, Nat.add_zero]
  have hLines := h.unbroken
  clear h
  induction terminated with
  | nil => rfl
  | cons l ls ih =>
    obtain ⟨hFirst, hRest⟩ := List.forall_mem_cons.mp hLines
    rw [List.flatMap_cons, List.count_append, List.count_append, ih hRest,
      List.count_eq_zero_of_not_mem hFirst, List.length_cons, List.count_singleton_self]
    omega

/-- A text that is empty or ends with a line break has no last part. -/
theorem ended_iff (h : Lined cs terminated last) :
    (cs.isEmpty || cs.getLast? == some '\n') = true ↔ last = [] := by
  rw [Bool.or_eq_true, List.isEmpty_iff, beq_iff_eq, h.joined]
  constructor
  · rintro (hNone | hBreak)
    · exact (List.append_eq_nil_iff.mp hNone).2
    · by_contra hSome
      rw [List.getLast?_append_of_ne_nil _ hSome] at hBreak
      exact h.unended (List.mem_of_getLast? hBreak)
  · rintro rfl
    rw [List.append_nil]
    cases terminated using List.reverseRecOn with
    | nil => exact .inl rfl
    | append_singleton ls l => simp

end Lined

/-- The number of lines of a text: the terminated ones, and a last one if it is not empty. -/
def HasLines (content : String) (n : Nat) : Prop :=
  ∃ terminated last, Lined content.toList terminated last ∧
    n = terminated.length + if last = [] then 0 else 1

theorem Lined.lines_eq {content : String} {terminated : List (List Char)} {last : List Char}
    (h : Lined content.toList terminated last) :
    Artifact.lines content = terminated.length + if last = [] then 0 else 1 := by
  simp only [Artifact.lines, h.count, h.ended_iff]

theorem hasLines_iff {content : String} {n : Nat} :
    HasLines content n ↔ n = Artifact.lines content := by
  constructor
  · rintro ⟨terminated, last, h, rfl⟩
    exact h.lines_eq.symm
  · rintro rfl
    obtain ⟨terminated, last, h⟩ := Lined.exists_lined content.toList
    exact ⟨terminated, last, h, h.lines_eq⟩

/-- The bytes of a text are those of its characters, one after another. -/
theorem bytes_eq (content : String) :
    Artifact.bytes content = (content.toList.flatMap String.utf8EncodeChar).length := by
  show content.toByteArray.size = _
  rw [← String.utf8Encode_toList, List.utf8Encode, List.size_toByteArray]

/-! ## Records with an invariant -/

namespace Input.Record

variable {α : Type}

/-- A property that every settled record has and that keeping a value does not take away. -/
structure Invariant (r : Record α) (P : α → Prop) : Prop where
  settled : ∀ a, P (r.settle a)
  kept : ∀ name v a, P a → P (r.keep name v a)

/-- An assignment to one attribute of a record, not to all of its fields at once. -/
structure Assignment where
  name : String
  value : Value
  single : replacesAll name value = false

/-- A record after several assignments to its attributes.  One that is refused changes nothing. -/
def assigned (r : Record α) (a : α) (steps : List Assignment) : α :=
  steps.foldl (fun a e => ((r.set e.name e.value a).toOption).getD a) a

/-- An attribute that was assigned leaves a settled record, or a value that is kept apart. -/
theorem set_cases {r : Record α} {name : String} {v : Value} {a a' : α}
    (h : r.set name v a = .ok a') :
    (∃ change : α → α, a' = r.settle (change a)) ∨ a' = r.keep name v a := by
  unfold set at h
  split at h
  · cases h
  · split at h
    · split at h
      · cases h
      · exact .inr (Except.ok.inj h).symm
    · left
      have hAssign := mapError_eq_ok.mp h
      unfold assign at hAssign
      split at hAssign
      · obtain ⟨change, -, rfl⟩ := map_eq_ok.mp hAssign
        exact ⟨change, rfl⟩
      · cases hAssign

namespace Invariant

variable {r : Record α} {P : α → Prop} {a : α}

theorem of_read (hP : r.Invariant P) {v : Value} (h : r.read v = .ok a) : P a := by
  obtain ⟨_, _, -, rfl⟩ := read_eq_ok h
  exact hP.settled _

/-- One assignment keeps the property, whether it is refused or not. -/
theorem step (hP : r.Invariant P) (ha : P a) (name : String) (v : Value) :
    P (((r.set name v a).toOption).getD a) := by
  cases hSet : r.set name v a with
  | error failure => exact ha
  | ok a' =>
    rcases set_cases hSet with ⟨change, rfl⟩ | rfl
    · exact hP.settled _
    · exact hP.kept name v a ha

/-- So does any number of assignments. -/
theorem assigned (hP : r.Invariant P) (ha : P a) (steps : List Assignment) :
    P (r.assigned a steps) := by
  induction steps generalizing a with
  | nil => exact ha
  | cons e steps ih => exact ih (hP.step ha e.name e.value)

end Invariant

end Input.Record

/-! ## Artifacts -/

/-- Metrics that describe the content. -/
structure Artifact.Measured (a : Artifact) : Prop where
  lines : ∃ n : Nat, HasLines a.content n ∧ a.lineCount = n
  bytes : a.byteCount = ((a.content.toList.flatMap String.utf8EncodeChar).length : Int)

namespace Artifact

theorem settle_measured (a : Artifact) : a.settle.Measured := by
  constructor
  · exact ⟨_, hasLines_iff.mpr rfl, rfl⟩
  · exact congrArg Int.ofNat (bytes_eq a.content)

theorem measured_invariant : Artifact.record.Invariant Measured :=
  ⟨settle_measured, fun _ _ _ ha => ha⟩

end Artifact

/-! ## Manifests -/

namespace Manifest

/-- Every artifact of a manifest that was read is measured. -/
theorem measured_of_read {v : Value} {m : Manifest} (h : Manifest.record.read v = .ok m) :
    ∀ a ∈ m.artifacts, a.Measured := by
  obtain ⟨es, changes, hChanges, rfl⟩ := Input.Record.read_eq_ok h
  simp only [Manifest.record, Input.flag, Input.listField, List.forall₂_cons_left_iff,
    List.forall₂_nil_left_iff] at hChanges
  obtain ⟨_, _, hArtifacts, ⟨_, _, hSuccess, ⟨_, _, hErrors, rfl, rfl⟩, rfl⟩, rfl⟩ := hChanges
  let P : Manifest → Prop := fun m => ∀ a ∈ m.artifacts, a.Measured
  have hStart : P {} := by simp [P]
  have hFirst : P _ := Input.Record.readField_keeps (P := P) hArtifacts (fun _ _ _ hRead _ a ha => by
    obtain ⟨w, hItem⟩ := Input.listOf_mem hRead ha
    exact Artifact.measured_invariant.of_read hItem) hStart
  exact Input.Record.readField_keeps (P := P) hErrors (fun _ _ _ _ hm => hm)
    (Input.Record.readField_keeps (P := P) hSuccess (fun _ _ _ _ hm => hm) hFirst)

/-- A manifest after several artifacts were added.  One without a name is refused and changes
nothing. -/
def addAll (m : Manifest) (calls : List (String × String)) : Manifest :=
  calls.foldl (fun m c => ((m.add c.1 c.2).toOption).getD m) m

/-- An artifact with a name is added, measured; one without a name is refused. -/
theorem add_eq (m : Manifest) (name content : String) :
    m.add name content =
      if name.isEmpty then .error [⟨[.name "name"], .textTooShort 1⟩]
      else .ok (m.append [Artifact.ofContent name content]) := by
  have hName : Input.nonEmptyText (.text name) =
      if name.isEmpty then Checked.fail (.textTooShort 1) else .ok name := rfl
  let changes : List (Checked (Artifact → Artifact)) := [
    Checked.under (.name "name") ((Input.nonEmptyText (.text name)).map
      fun x a => { a with name := x }),
    .ok fun a => { a with content }, .ok id, .ok id]
  have hMake : Artifact.make name content =
      (Checked.both (Checked.all changes) (.ok ())).map
        fun p : List (Artifact → Artifact) × Unit =>
          Artifact.settle (p.1.foldl (fun a change => change a) ⟨"", "", 0, 0⟩) := rfl
  rw [add, hMake]
  simp only [changes, hName]
  split <;> rfl

/-- The artifacts that were added are those with a name, in order. -/
theorem artifacts_addAll (m : Manifest) (calls : List (String × String)) :
    (m.addAll calls).artifacts = m.artifacts ++
      (calls.filter fun c => !c.1.isEmpty).map fun c => Artifact.ofContent c.1 c.2 := by
  induction calls generalizing m with
  | nil => exact (List.append_nil _).symm
  | cons c calls ih =>
    have hStep : m.addAll (c :: calls) = addAll (((m.add c.1 c.2).toOption).getD m) calls := rfl
    rw [hStep, ih, add_eq, List.filter_cons]
    cases c.1.isEmpty with
    | true => rfl
    | false =>
      show m.artifacts ++ [Artifact.ofContent c.1 c.2] ++ _ = m.artifacts ++ _
      rw [List.append_assoc]
      rfl

theorem measured_addAll {m : Manifest} (h : ∀ a ∈ m.artifacts, a.Measured)
    (calls : List (String × String)) : ∀ a ∈ (m.addAll calls).artifacts, a.Measured := by
  intro a ha
  rw [artifacts_addAll, List.mem_append] at ha
  rcases ha with hOld | hNew
  · exact h a hOld
  · obtain ⟨c, -, rfl⟩ := List.mem_map.mp hNew
    exact Artifact.settle_measured _

/-- The lines of measured artifacts add up to those of their contents. -/
theorem totalLines_eq {m : Manifest} (h : ∀ a ∈ m.artifacts, a.Measured) :
    ∃ ns : List Nat, List.Forall₂ (fun a n => HasLines a.content n) m.artifacts ns ∧
      m.totalLines = ns.sum := by
  rw [totalLines]
  generalize m.artifacts = as at h
  induction as with
  | nil => exact ⟨[], .nil, rfl⟩
  | cons a as ih =>
    obtain ⟨hFirst, hRest⟩ := List.forall_mem_cons.mp h
    obtain ⟨ns, hLines, hSum⟩ := ih hRest
    obtain ⟨n, hCount, hMetric⟩ := hFirst.lines
    refine ⟨n :: ns, .cons hCount hLines, ?_⟩
    rw [List.map_cons, List.foldr_cons, hMetric, hSum, List.sum_cons, Int.natCast_add]

end Manifest

/-- The metrics of an artifact describe its content, whatever was given for them when it was read
and whatever was assigned to each of its attributes since, taken over or refused.  A manifest that
was read and to which any artifacts were added holds all of them that have a name, and its number of
lines is the sum of the numbers of lines of the contents. -/
theorem metrics_describe {given : Value} {a : Artifact} (h : Artifact.record.read given = .ok a)
    (steps : List Input.Record.Assignment) {start : Value} {m : Manifest}
    (hStart : Manifest.record.read start = .ok m) (calls : List (String × String)) :
    (Artifact.record.assigned a steps).Measured ∧
      (m.addAll calls).artifacts = m.artifacts ++
        (calls.filter fun c => !c.1.isEmpty).map (fun c => Artifact.ofContent c.1 c.2) ∧
      (∀ b ∈ (m.addAll calls).artifacts, b.Measured) ∧
      ∃ ns : List Nat,
        List.Forall₂ (fun b n => HasLines b.content n) (m.addAll calls).artifacts ns ∧
          (m.addAll calls).totalLines = ns.sum := by
  have hInvariant := Artifact.measured_invariant
  have hAll := Manifest.measured_addAll (Manifest.measured_of_read hStart) calls
  exact ⟨hInvariant.assigned (hInvariant.of_read h) steps, m.artifacts_addAll calls, hAll,
    Manifest.totalLines_eq hAll⟩

/-- A note with wrong metrics. -/
def misjudgedNote : Value :=
  Value.record [("name", .text "note"), ("content", .text "a"), ("line_count", .int 7),
    ("size_bytes", .text "9")]

/-- What is assigned to it: a wrong metric, a content of two lines with a character of two bytes, a
name that is refused, and an attribute that there is not. -/
def noteSteps : List Input.Record.Assignment := [
  ⟨"line_count", .int 3, rfl⟩, ⟨"content", .text "b\né", rfl⟩, ⟨"name", .text "", rfl⟩,
  ⟨"colour", .int 1, rfl⟩]

/-- The note has the metrics of its new content, and of three artifacts added one has no name. -/
theorem misjudgedNote_measured :
    Artifact.record.read misjudgedNote = .ok ⟨"note", "a", 1, 1⟩ ∧
      (Artifact.record.assigned ⟨"note", "a", 1, 1⟩ noteSteps).Measured ∧
      ((Artifact.record.assigned ⟨"note", "a", 1, 1⟩ noteSteps).content = "b\né" ∧
        (Artifact.record.assigned ⟨"note", "a", 1, 1⟩ noteSteps).lineCount = 2 ∧
        (Artifact.record.assigned ⟨"note", "a", 1, 1⟩ noteSteps).byteCount = 4) ∧
      (Manifest.addAll {} [("x", "1\n2\n"), ("", "3"), ("y", "")]).totalLines = 2 := by
  have hRead : Artifact.record.read misjudgedNote = .ok ⟨"note", "a", 1, 1⟩ := by rfl
  have hStart : Manifest.record.read (.map []) = .ok {} := by rfl
  obtain ⟨hMeasured, hAdded, -, -⟩ :=
    metrics_describe hRead noteSteps hStart [("x", "1\n2\n"), ("", "3"), ("y", "")]
  refine ⟨hRead, hMeasured, by decide +kernel, ?_⟩
  rw [Manifest.totalLines, hAdded]
  rfl

end EntityGraph
