import EntityGraph.Input.Text
import EntityGraph.Proofs.Input.Rereading

/-!
# Definitions are read back

Reading definitions and settings is a normalization: whatever value they were read from, the mapping
of their declared fields is read as the same definitions and the same settings.

* `flag_normal`, `nameField_normal`, `labelField_normal`, `listField_normal`: the kinds of fields;
* `model_normal`, `configuration_normal`: entities and settings are read back;
* `dumped`: definitions and settings as a mapping;
* `parse_dumped`: this mapping is read as what it shows.
-/

namespace EntityGraph.Input

open Outcome

/-! ## Kinds of fields -/

section

variable {α β : Type} {name : String} {start : α}

theorem flag_normal {store : Bool → α → α} {shown : α → Bool}
    (hShown : ∀ b a, shown (store b a) = b) (hDefault : store (shown start) start = start) :
    (flag name store shown).Normal start :=
  Field.of_normal bool_rereads (fun b a => congrArg Value.bool (hShown b a))
    fun _ => ⟨shown start, rfl, hDefault⟩

theorem nameField_normal {store : String → α → α} {shown : α → String}
    (hShown : ∀ s a, shown (store s a) = s) : (nameField store shown).Normal start :=
  Field.required_normal identifier_rereads fun s a => congrArg Value.text (hShown s a)

theorem labelField_normal {labels : List String} {store : String → α → α} {shown : α → String}
    (hShown : ∀ s a, shown (store s a) = s) : (labelField labels store shown).Normal start :=
  Field.required_normal (oneOf_rereads labels) fun s a => congrArg Value.text (hShown s a)

/-- A record without computed fields is shown as its declared fields. -/
theorem Record.dump_eq {r : Record β} (h : ∀ b, r.computed b = []) (b : β) :
    r.dump b = r.dumpDeclared b := by
  rw [dump, h, List.append_nil]
  rfl

theorem listField_normal {required : Bool} {item : Record β} {store : List β → α → α}
    {shown : α → List β} (hItem : item.Normal) (hComputed : ∀ b, item.computed b = [])
    (hShown : ∀ xs a, shown (store xs a) = xs)
    (hDefault : required = false → shown start = [] ∧ store [] start = start) :
    (listField name required item store shown).Normal start := by
  have hDump : item.dump = item.dumpDeclared := funext (Record.dump_eq hComputed)
  have hItems : Rereads (listOf item.read) fun xs => .list (xs.map item.dump) :=
    hDump ▸ listOf_rereads hItem.rereads
  apply Field.of_normal hItems
  · intro xs a
    rw [hShown]
  · intro hOptional
    obtain ⟨hEmpty, hStore⟩ := hDefault hOptional
    refine ⟨[], ?_, hStore⟩
    rw [hEmpty]
    rfl

end

/-! ## Definitions and settings -/

theorem permission_normal : permission.Normal where
  names := by decide
  settle _ := rfl
  fields := by
    simp only [permission, List.forall_mem_cons, List.not_mem_nil, false_implies, implies_true,
      and_true]
    exact ⟨Field.required_normal nonEmptyText_rereads fun _ _ => rfl,
      labelField_normal fun _ _ => rfl⟩
  apart := by
    simp only [permission, labelField, List.pairwise_cons, List.forall_mem_cons, List.not_mem_nil,
      false_implies, implies_true, List.Pairwise.nil, and_true]
    exact Field.of_apart (fun _ _ => rfl) (fun _ _ => rfl) fun _ _ _ => rfl

theorem validator_normal : validator.Normal where
  names := by decide
  settle _ := rfl
  fields := by
    simp only [validator, List.forall_mem_cons, List.not_mem_nil, false_implies, implies_true,
      and_true]
    exact ⟨Field.required_normal validatorKind_rereads fun _ _ => rfl,
      Field.of_normal bag_rereads (fun _ _ => rfl) fun _ => ⟨[], rfl, rfl⟩⟩
  apart := by
    simp only [validator, List.pairwise_cons, List.forall_mem_cons, List.not_mem_nil, false_implies,
      implies_true, List.Pairwise.nil, and_true]
    exact Field.of_apart (fun _ _ => rfl) (fun _ _ => rfl) fun _ _ _ => rfl

theorem argument_normal : argument.Normal where
  names := by decide
  settle _ := rfl
  fields := by
    simp only [argument, List.forall_mem_cons, List.not_mem_nil, false_implies, implies_true,
      and_true]
    exact ⟨nameField_normal fun _ _ => rfl,
      labelField_normal fun _ _ => rfl,
      flag_normal (fun _ _ => rfl) rfl,
      flag_normal (fun _ _ => rfl) rfl,
      listField_normal validator_normal (fun _ => rfl) (fun _ _ => rfl) fun _ => ⟨rfl, rfl⟩⟩
  apart := by
    simp only [argument, nameField, labelField, flag, listField, List.pairwise_cons,
      List.forall_mem_cons, List.not_mem_nil, false_implies, implies_true, List.Pairwise.nil,
      and_true]
    and_intros <;> exact Field.of_apart (fun _ _ => rfl) (fun _ _ => rfl) fun _ _ _ => rfl

theorem property_normal : property.Normal where
  names := by decide
  settle _ := rfl
  fields := by
    simp only [property, List.forall_mem_cons, List.not_mem_nil, false_implies, implies_true,
      and_true]
    exact ⟨nameField_normal fun _ _ => rfl,
      labelField_normal fun _ _ => rfl,
      flag_normal (fun _ _ => rfl) rfl,
      flag_normal (fun _ _ => rfl) rfl,
      flag_normal (fun _ _ => rfl) rfl,
      listField_normal permission_normal (fun _ => rfl) (fun _ _ => rfl) fun _ => ⟨rfl, rfl⟩⟩
  apart := by
    simp only [property, nameField, labelField, flag, listField, List.pairwise_cons,
      List.forall_mem_cons, List.not_mem_nil, false_implies, implies_true, List.Pairwise.nil,
      and_true]
    and_intros <;> exact Field.of_apart (fun _ _ => rfl) (fun _ _ => rfl) fun _ _ _ => rfl

theorem relationship_normal : relationship.Normal where
  names := by decide
  settle _ := rfl
  fields := by
    simp only [relationship, List.forall_mem_cons, List.not_mem_nil, false_implies, implies_true,
      and_true]
    exact ⟨nameField_normal fun _ _ => rfl,
      Field.required_normal nonEmptyText_rereads fun _ _ => rfl,
      flag_normal (fun _ _ => rfl) rfl,
      flag_normal (fun _ _ => rfl) rfl⟩
  apart := by
    simp only [relationship, nameField, flag, List.pairwise_cons, List.forall_mem_cons,
      List.not_mem_nil, false_implies, implies_true, List.Pairwise.nil, and_true]
    and_intros <;> exact Field.of_apart (fun _ _ => rfl) (fun _ _ => rfl) fun _ _ _ => rfl

theorem operation_normal : operation.Normal where
  names := by decide
  settle _ := rfl
  fields := by
    simp only [operation, List.forall_mem_cons, List.not_mem_nil, false_implies, implies_true,
      and_true]
    exact ⟨nameField_normal fun _ _ => rfl,
      labelField_normal fun _ _ => rfl,
      listField_normal argument_normal (fun _ => rfl) (fun _ _ => rfl) fun _ => ⟨rfl, rfl⟩,
      listField_normal permission_normal (fun _ => rfl) (fun _ _ => rfl) fun _ => ⟨rfl, rfl⟩⟩
  apart := by
    simp only [operation, nameField, labelField, listField, List.pairwise_cons,
      List.forall_mem_cons, List.not_mem_nil, false_implies, implies_true, List.Pairwise.nil,
      and_true]
    and_intros <;> exact Field.of_apart (fun _ _ => rfl) (fun _ _ => rfl) fun _ _ _ => rfl

theorem model_normal : model.Normal where
  names := by decide
  settle _ := rfl
  fields := by
    simp only [model, List.forall_mem_cons, List.not_mem_nil, false_implies, implies_true, and_true]
    exact ⟨nameField_normal fun _ _ => rfl,
      listField_normal property_normal (fun _ => rfl) (fun _ _ => rfl)
        fun hOptional => absurd hOptional.symm Bool.false_ne_true,
      listField_normal relationship_normal (fun _ => rfl) (fun _ _ => rfl) fun _ => ⟨rfl, rfl⟩,
      listField_normal operation_normal (fun _ => rfl) (fun _ _ => rfl) fun _ => ⟨rfl, rfl⟩⟩
  apart := by
    simp only [model, nameField, listField, List.pairwise_cons, List.forall_mem_cons,
      List.not_mem_nil, false_implies, implies_true, List.Pairwise.nil, and_true]
    and_intros <;> exact Field.of_apart (fun _ _ => rfl) (fun _ _ => rfl) fun _ _ _ => rfl

theorem configuration_normal : Configuration.record.Normal where
  names := by decide
  settle _ := rfl
  fields := by
    simp only [Configuration.record, List.forall_mem_cons, List.not_mem_nil, false_implies,
      implies_true, and_true]
    exact ⟨Field.of_normal (shortText_rereads 128) (fun _ _ => rfl) fun _ => ⟨_, rfl, rfl⟩,
      Field.of_normal nonEmptyText_rereads (fun _ _ => rfl) fun _ => ⟨_, rfl, rfl⟩,
      Field.of_normal nonEmptyText_rereads (fun _ _ => rfl) fun _ => ⟨_, rfl, rfl⟩,
      flag_normal (fun _ _ => rfl) rfl,
      Field.of_normal (within_rereads 40 200) (fun _ _ => rfl) fun _ => ⟨_, rfl, rfl⟩,
      flag_normal (fun _ _ => rfl) rfl,
      flag_normal (fun _ _ => rfl) rfl⟩
  apart := by
    simp only [Configuration.record, flag, List.pairwise_cons, List.forall_mem_cons,
      List.not_mem_nil, false_implies, implies_true, List.Pairwise.nil, and_true]
    and_intros <;> exact Field.of_apart (fun _ _ => rfl) (fun _ _ => rfl) fun _ _ _ => rfl

/-- Definitions as the list of their entities, each as the mapping of its declared fields. -/
def dumpedModels (d : Definitions) : Value := .list (d.models.map model.dumpDeclared)

/-- Definitions and settings as a mapping. -/
def dumped (d : Definitions) (c : Configuration) : Value :=
  Value.record [("models", dumpedModels d), ("config", Configuration.record.dump c)]

/-- Whatever definitions and settings were parsed from, the mapping of their declared fields is
parsed as the same definitions and settings. -/
theorem parse_dumped {raw : Value} {d : Definitions} {c : Configuration}
    (h : (parse raw).value = .ok (d, c)) : (parse (dumped d c)).value = .ok (d, c) := by
  obtain ⟨⟨models, config⟩, -, hParts⟩ := bind_eq_ok.mp (mapError_eq_ok.mp h)
  obtain ⟨hDefinitions, hSettings⟩ := Checked.both_eq_ok.mp hParts
  rw [Definitions.read_record] at hDefinitions
  obtain ⟨ms, hModels, rfl⟩ := map_eq_ok.mp hDefinitions
  have hModelsAgain := listOf_rereads model_normal.rereads _ _ (Checked.under_eq_ok.mp hModels)
  have hSettingsAgain := configuration_normal.rereads _ _ (Checked.under_eq_ok.mp hSettings)
  have hSplit : split (dumped (.ofModels ms) c) =
      .ok (dumpedModels (.ofModels ms), Configuration.record.dump c) := rfl
  apply mapError_eq_ok.mpr
  rw [check, hSplit]
  apply Checked.both_eq_ok.mpr
  constructor
  · rw [Definitions.read_record]
    exact map_eq_ok.mpr ⟨ms, Checked.under_eq_ok.mpr hModelsAgain, rfl⟩
  · apply Checked.under_eq_ok.mpr
    rwa [Record.dump_eq fun _ => rfl]

/-- Definitions and settings in which truth values are written as words and numbers, a number as a
text, and most fields are left out. -/
def wordedLibrary : Value := Value.record [
  ("models", .tuple [Value.record [
    ("name", .text "Book"),
    ("properties", .list [Value.record [
      ("name", .text "title"), ("type", .text "String"), ("list", .text "Off"),
      ("unique", .int 1)]]),
    ("operations", .list [Value.record [
      ("name", .text "add"), ("type", .text "Create"),
      ("arguments", .list [Value.record [
        ("name", .text "pages"), ("type", .text "Int"), ("required", .bool false),
        ("validators", .list [Value.record [
          ("type", .text "Max"),
          ("properties", .map [(.text "max", .null)])]])]])]])]]),
  ("config", Value.record [("line_length", .text " +080 "), ("format_source", .text "no")])]

/-- They are parsed with every value in its own type, and read back from their declared fields. -/
theorem wordedLibrary_dumped : ∃ d c, (parse wordedLibrary).value = .ok (d, c) ∧
    d.models = [⟨"Book", [⟨"title", "String", false, true, true, []⟩], [],
      [⟨"add", "Create", [⟨"pages", "Int", false, false, [⟨"Max", [(.text "max", .null)]⟩]⟩], []⟩]⟩] ∧
    c.lineLength = 80 ∧ c.formatSource = false ∧ (parse (dumped d c)).value = .ok (d, c) := by
  obtain ⟨d, c, hParse, hModels, hLine, hFormat⟩ : ∃ d c, (parse wordedLibrary).value = .ok (d, c) ∧
      d.models = [⟨"Book", [⟨"title", "String", false, true, true, []⟩], [],
        [⟨"add", "Create", [⟨"pages", "Int", false, false, [⟨"Max", [(.text "max", .null)]⟩]⟩],
          []⟩]⟩] ∧ c.lineLength = 80 ∧ c.formatSource = false :=
    ⟨_, _, by rfl, by rfl, by rfl, by rfl⟩
  exact ⟨d, c, hParse, hModels, hLine, hFormat, parse_dumped hParse⟩

end EntityGraph.Input
