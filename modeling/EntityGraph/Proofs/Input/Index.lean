import EntityGraph.Proofs.Input.Definitions
import EntityGraph.Proofs.Table

/-!
# The index of definitions

Definitions are read with an index of their entities, in which the last entity of each name counts.
A value that is assigned to the entities later is read by the same rules, but the index is not made
again.  So whatever is assigned, a lookup finds only entities that the definitions were read with.

* `find?_ofModels`: the index finds the last entity with a name;
* `assign`, `assign_cases`: one assignment;
* `assigned`, `assigned_eq`: any number of assignments;
* `find?_assigned`: when a lookup agrees with the entities of the moment.
-/

namespace EntityGraph

open Outcome

namespace Definitions

theorem find?_ofModels (models : List Model) (name : String) :
    (ofModels models).find? name = lastNamed (·.name) models name := by
  rw [find?, ofModels, ← List.head?_filter, List.filter_reverse, List.head?_reverse,
    List.filter_map, List.getLast?_map, Option.map_map]
  exact Option.map_id_apply ..

/-- Definitions that were read have the index of their entities. -/
theorem read_eq_ofModels {raw : Value} {d : Definitions} (h : read raw = .ok d) :
    d = ofModels d.models := by
  obtain ⟨d', -, rfl⟩ := map_eq_ok.mp h
  rfl

/-! ## Assignments -/

/-- A value that is assigned to the entities is read as they are. -/
theorem set_models_eq_ok {d d' : Definitions} {v : Value} :
    record.set "models" v d = .ok d' ↔
      ∃ ms, Input.listOf Input.model.read v = .ok ms ∧ d' = { d with models := ms } := by
  have hComputed : record.isComputed "models" d = false := by rfl
  have hKept : "models".startsWith "_" = false := by decide +kernel
  have hAssign : record.assign "models" v d =
      (Checked.under (.name "models") ((Input.listOf Input.model.read v).map
        fun ms (d : Definitions) => { d with models := ms })).map fun change => change d := by rfl
  rw [Input.Record.set, hComputed, hKept]
  simp only [Bool.false_eq_true, if_false]
  rw [mapError_eq_ok, hAssign, map_eq_ok]
  constructor
  · rintro ⟨change, hChange, rfl⟩
    obtain ⟨ms, hRead, rfl⟩ := map_eq_ok.mp (Checked.under_eq_ok.mp hChange)
    exact ⟨ms, hRead, rfl⟩
  · rintro ⟨ms, hRead, rfl⟩
    exact ⟨_, Checked.under_eq_ok.mpr (map_eq_ok.mpr ⟨ms, hRead, rfl⟩), rfl⟩

/-- Definitions after an assignment to their entities.  A value that is refused changes nothing. -/
def assign (d : Definitions) (v : Value) : Definitions :=
  ((record.set "models" v d).toOption).getD d

/-- What the values of several assignments read as, without those that are refused. -/
def accepted (vs : List Value) : List (List Model) :=
  vs.filterMap fun v => (Input.listOf Input.model.read v).toOption

/-- An assignment changes the entities or nothing. -/
theorem assign_cases (d : Definitions) (v : Value) :
    (∃ ms, accepted [v] = [ms] ∧ d.assign v = { d with models := ms }) ∨
      accepted [v] = [] ∧ d.assign v = d := by
  cases hRead : Input.listOf Input.model.read v with
  | ok ms =>
    have hSet := (set_models_eq_ok (d := d)).mpr ⟨ms, hRead, rfl⟩
    refine Or.inl ⟨ms, ?_, ?_⟩
    · simp [accepted, hRead, Except.toOption]
    · rw [assign, hSet]
      rfl
  | error violations =>
    refine Or.inr ⟨?_, ?_⟩
    · simp [accepted, hRead, Except.toOption]
    · cases hSet : record.set "models" v d with
      | ok d' =>
        obtain ⟨ms, hOk, -⟩ := set_models_eq_ok.mp hSet
        cases hRead.symm.trans hOk
      | error failure =>
        rw [assign, hSet]
        rfl

/-- Definitions after several assignments to their entities. -/
def assigned (d : Definitions) (vs : List Value) : Definitions := vs.foldl assign d

/-- The last value that was not refused stands for the entities, and nothing else has changed. -/
theorem assigned_eq (d : Definitions) (vs : List Value) :
    d.assigned vs = { d with models := ((accepted vs).getLast?).getD d.models } := by
  induction vs using List.reverseRecOn with
  | nil => rfl
  | append_singleton vs v ih =>
    have hStep : d.assigned (vs ++ [v]) = (d.assigned vs).assign v := List.foldl_concat ..
    have hAccepted : accepted (vs ++ [v]) = accepted vs ++ accepted [v] := List.filterMap_append
    rw [hStep, hAccepted]
    rcases assign_cases (d.assigned vs) v with ⟨ms, hNew, hAssign⟩ | ⟨hRefused, hAssign⟩
    · rw [hNew, hAssign, ih, List.getLast?_concat]
      rfl
    · rw [hRefused, hAssign, ih, List.append_nil]

/-! ## Lookups -/

/-- Whatever is assigned to their entities, definitions find by name the last entity that they were
read with.  That is the last one of the moment exactly if the last value that was not refused has the
same one, and the lookup tells whether there is one exactly if the name stands in both or in
neither. -/
theorem find?_assigned {raw : Value} {d₀ : Definitions} (hRead : read raw = .ok d₀)
    (vs : List Value) :
    (d₀.assigned vs).models = ((accepted vs).getLast?).getD d₀.models ∧
    ∀ name, (d₀.assigned vs).lookUp (.text name) =
        .ok (((d₀.assigned vs).find? name).map Model.describe) ∧
      (d₀.assigned vs).find? name = lastNamed (·.name) d₀.models name ∧
      ((d₀.assigned vs).find? name = lastNamed (·.name) (d₀.assigned vs).models name ↔
        ∀ ms, (accepted vs).getLast? = some ms →
          lastNamed (·.name) ms name = lastNamed (·.name) d₀.models name) ∧
      (((d₀.assigned vs).find? name = none ↔ name ∉ (d₀.assigned vs).names) ↔
        ∀ ms, (accepted vs).getLast? = some ms →
          (name ∈ ms.map (·.name) ↔ name ∈ d₀.models.map (·.name))) := by
  have hFirst := read_eq_ofModels hRead
  have hFind : ∀ name, (d₀.assigned vs).find? name = lastNamed (·.name) d₀.models name := by
    intro name
    rw [← find?_ofModels, ← hFirst, assigned_eq]
    rfl
  have hModels : (d₀.assigned vs).models = ((accepted vs).getLast?).getD d₀.models := by
    rw [assigned_eq]
  refine ⟨hModels, fun name => ⟨?_, hFind name, ?_, ?_⟩⟩
  · have hIndexed : (d₀.assigned vs).replacement = none := by
      rw [assigned_eq, hFirst]
      rfl
    rw [lookUp, hIndexed]
  · rw [hFind, hModels]
    cases (accepted vs).getLast? with
    | none => simp
    | some ms => simp [eq_comm]
  · rw [hFind, lastNamed_eq_none, names, hModels, not_iff_not]
    cases (accepted vs).getLast? with
    | none => simp
    | some ms => simp [iff_comm]

/-- A library that holds a book. -/
def bookLibrary : Value :=
  Value.record [("models", .list [Value.record [("name", .text "Book"), ("properties", .list [])]])]

/-- What is assigned to its entities: a shelf, and then a text, which is refused. -/
def shelfInstead : List Value :=
  [.list [Value.record [("name", .text "Shelf"), ("properties", .list [])]], .text "Book"]

/-- The shelf is not found, and the book still is. -/
theorem bookLibrary_outdated : ∃ d₀, read bookLibrary = .ok d₀ ∧
    (d₀.assigned shelfInstead).names = ["Shelf"] ∧
      ¬ ((d₀.assigned shelfInstead).find? "Shelf" = none ↔
        "Shelf" ∉ (d₀.assigned shelfInstead).names) ∧
      (d₀.assigned shelfInstead).find? "Book" ≠
        lastNamed (·.name) (d₀.assigned shelfInstead).models "Book" := by
  obtain ⟨d₀, hRead, hBook⟩ : ∃ d₀, read bookLibrary = .ok d₀ ∧
    d₀.models = [⟨"Book", [], [], []⟩] := ⟨_, by rfl, by rfl⟩
  have hShelf : (accepted shelfInstead).getLast? = some [⟨"Shelf", [], [], []⟩] := by rfl
  obtain ⟨hModels, hLookups⟩ := find?_assigned hRead shelfInstead
  obtain ⟨-, -, -, hNamed⟩ := hLookups "Shelf"
  obtain ⟨-, -, hLast, -⟩ := hLookups "Book"
  refine ⟨d₀, hRead, ?_, fun hNone => ?_, fun hSame => ?_⟩
  · rw [names, hModels, hShelf]
    rfl
  · have hFound := (hNamed.mp hNone _ hShelf).mp (by decide)
    rw [hBook] at hFound
    exact absurd hFound (by decide)
  · have hBoth := hLast.mp hSame _ hShelf
    rw [hBook] at hBoth
    cases hBoth

end Definitions

end EntityGraph
