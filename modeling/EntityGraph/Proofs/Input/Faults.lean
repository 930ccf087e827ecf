import EntityGraph.Input.Text
import EntityGraph.Proofs.Failing

/-!
# Every refusal names a fault

A check that refuses a value lists what is wrong with it, and the list is never empty: each reading
that fails names a fault, and putting readings together loses none.  So definitions are never
refused without a reason.

* `Checked.Faulty`: an outcome that is a value or at least one violation;
* `Record.read_faulty`: a record whose fields are read with faults is;
* `parse_faulty`: refused definitions come with a violation.
-/

namespace EntityGraph

namespace Checked

variable {α β : Type}

/-- An outcome that refuses nothing without a violation. -/
def Faulty (c : Checked α) : Prop := FailsBy (· ≠ []) c

theorem fail_faulty (fault : Fault) : (fail fault : Checked α).Faulty :=
  FailsBy.error_iff.mpr (List.cons_ne_nil _ _)

namespace Faulty

theorem under {c : Checked α} (h : c.Faulty) (step : Step) : (c.under step).Faulty := by
  cases c with
  | ok a => exact FailsBy.ok a
  | error vs =>
    refine FailsBy.error_iff.mpr fun hNone => h vs rfl ?_
    exact List.map_eq_nil_iff.mp hNone

theorem both {c : Checked α} {d : Checked β} (hc : c.Faulty) (hd : d.Faulty) :
    (c.both d).Faulty := by
  cases c with
  | ok a =>
    cases d with
    | ok b => exact FailsBy.ok (a, b)
    | error ws => exact FailsBy.error_iff.mpr (hd ws rfl)
  | error vs =>
    have hSome := hc vs rfl
    cases d with
    | ok b => exact FailsBy.error_iff.mpr hSome
    | error ws =>
      exact FailsBy.error_iff.mpr fun hNone => hSome (List.append_eq_nil_iff.mp hNone).1

theorem all {cs : List (Checked α)} (h : ∀ c ∈ cs, c.Faulty) : (Checked.all cs).Faulty := by
  induction cs with
  | nil => exact FailsBy.ok []
  | cons c cs ih =>
    obtain ⟨hFirst, hRest⟩ := List.forall_mem_cons.mp h
    exact FailsBy.map (hFirst.both (ih hRest))

end Faulty

end Checked

namespace Input

open Checked

/-! ## Plain values -/

theorem text_faulty (v : Value) : (text v).Faulty := by
  unfold text
  split
  · exact FailsBy.ok _
  · exact fail_faulty _
  · split
    · exact FailsBy.ok _
    · exact fail_faulty _
  · exact fail_faulty _

theorem boolOfWord_faulty (s : String) : (boolOfWord s).Faulty :=
  FailsBy.ite (FailsBy.ok _) (FailsBy.ite (FailsBy.ok _) (fail_faulty _))

theorem boolOfInt_faulty (i : Int) : (boolOfInt i).Faulty :=
  FailsBy.ite (FailsBy.ok _) (FailsBy.ite (FailsBy.ok _) (fail_faulty _))

theorem bool_faulty (v : Value) : (bool v).Faulty := by
  unfold bool
  split
  · exact FailsBy.ok _
  · exact FailsBy.ite (boolOfInt_faulty _) (fail_faulty _)
  · exact boolOfWord_faulty _
  · exact fail_faulty _
  · split
    · exact boolOfWord_faulty _
    · exact fail_faulty _
  · split
    · exact FailsBy.ite (boolOfInt_faulty _) (fail_faulty _)
    · exact fail_faulty _
  · exact fail_faulty _

theorem plainInt_faulty (cs : List Char) : (plainInt cs).Faulty :=
  FailsBy.ite (fail_faulty _) (FailsBy.ite (fail_faulty _)
    (FailsBy.ite (FailsBy.ok _) (fail_faulty _)))

theorem intOfText_faulty (s : String) : (intOfText s).Faulty := by
  have hPlain := plainInt_faulty (trimNumber s.toList)
  simp only [intOfText]
  split
  · exact FailsBy.ok _
  · exact plainInt_faulty _
  · rename_i vs hError hNone
    exact FailsBy.error_iff.mpr (hPlain vs hError)

theorem int_faulty (v : Value) : (int v).Faulty := by
  unfold int
  split
  · exact FailsBy.ok _
  · exact FailsBy.ok _
  · refine FailsBy.ite (fail_faulty _) ?_
    split
    · exact FailsBy.ite (FailsBy.ok _) (fail_faulty _)
    · exact fail_faulty _
  · exact intOfText_faulty _
  · exact fail_faulty _
  · split
    · exact intOfText_faulty _
    · exact fail_faulty _
  · exact fail_faulty _

/-! ## Bounds -/

theorem within_faulty (least greatest : Int) (v : Value) : (within least greatest v).Faulty :=
  FailsBy.bind (int_faulty v) fun _ =>
    FailsBy.ite (fail_faulty _) (FailsBy.ite (fail_faulty _) (FailsBy.ok _))

theorem nonEmptyText_faulty (v : Value) : (nonEmptyText v).Faulty :=
  FailsBy.bind (text_faulty v) fun _ => FailsBy.ite (fail_faulty _) (FailsBy.ok _)

theorem shortText_faulty (greatest : Nat) (v : Value) : (shortText greatest v).Faulty :=
  FailsBy.bind (nonEmptyText_faulty v) fun _ => FailsBy.ite (fail_faulty _) (FailsBy.ok _)

theorem identifier_faulty (v : Value) : (identifier v).Faulty :=
  FailsBy.bind (text_faulty v) fun _ => FailsBy.ite (FailsBy.ok _) (fail_faulty _)

theorem oneOf_faulty (labels : List String) (v : Value) : (oneOf labels v).Faulty := by
  unfold oneOf
  have hText := text_faulty v
  split
  · exact FailsBy.ite (FailsBy.ok _) (fail_faulty _)
  · rename_i vs hError
    exact FailsBy.error_iff.mpr (hText vs hError)
  · exact fail_faulty _

theorem validatorKind_faulty (v : Value) : (validatorKind v).Faulty :=
  FailsBy.bind (nonEmptyText_faulty v) fun _ => FailsBy.ite (FailsBy.ok _) (fail_faulty _)

/-! ## Parts -/

theorem listOf_faulty {α : Type} {item : Value → Checked α} (h : ∀ v, (item v).Faulty)
    (v : Value) : (listOf item v).Faulty := by
  have hItems : ∀ xs : List Value,
      (Checked.all (xs.mapIdx fun i x => Checked.under (.index i) (item x))).Faulty := by
    intro xs
    refine Faulty.all fun c hc => ?_
    obtain ⟨i, hi, rfl⟩ := List.mem_mapIdx.mp hc
    exact (h _).under _
  unfold listOf
  split
  · exact hItems _
  · exact hItems _
  · exact hItems _
  · exact fail_faulty _

theorem textKey_faulty (v : Value) : (textKey v).Faulty := by
  unfold textKey
  split
  · exact FailsBy.ok _
  · exact FailsBy.map (text_faulty _)

theorem bag_faulty (v : Value) : (bag v).Faulty := by
  unfold bag
  split
  · refine FailsBy.map (Faulty.all fun c hc => ?_)
    obtain ⟨e, -, rfl⟩ := List.mem_map.mp hc
    exact (Faulty.under (FailsBy.map (textKey_faulty e.1)) _).under _
  · exact fail_faulty _

/-! ## Records -/

section

variable {α β : Type}

/-- A field that refuses no value without a violation. -/
def Field.Faulty (f : Field α) : Prop := ∀ v, (f.reading v).Faulty

/-- A record all of whose fields are of this kind. -/
def Record.Faulty (r : Record α) : Prop := ∀ f ∈ r.fields, f.Faulty

variable {name : String}

theorem Field.of_faulty {required : Bool} {reading : Value → Checked β} {store : β → α → α}
    {shown : α → Value} (h : ∀ v, (reading v).Faulty) :
    (Field.of name required reading store shown).Faulty :=
  fun v => FailsBy.map (h v)

theorem flag_faulty {store : Bool → α → α} {shown : α → Bool} : (flag name store shown).Faulty :=
  Field.of_faulty bool_faulty

theorem nameField_faulty {store : String → α → α} {shown : α → String} :
    (nameField store shown).Faulty :=
  Field.of_faulty identifier_faulty

theorem labelField_faulty {labels : List String} {store : String → α → α} {shown : α → String} :
    (labelField labels store shown).Faulty :=
  Field.of_faulty (oneOf_faulty labels)

namespace Record

theorem readField_faulty {f : Field α} (h : f.Faulty) (es : List (Value × Value)) :
    (readField f es).Faulty := by
  unfold readField
  split
  · exact (h _).under _
  · exact FailsBy.ite ((fail_faulty _).under _) (FailsBy.ok _)

theorem checkKeys_faulty (fields : List (Field α)) (es : List (Value × Value)) :
    (checkKeys fields es).Faulty := by
  unfold checkKeys
  split
  · exact FailsBy.ok _
  · rename_i vs hSome
    exact FailsBy.error_iff.mpr hSome

/-- A record refuses no value without a violation if none of its fields does. -/
theorem read_faulty {r : Record α} (h : r.Faulty) (v : Value) : (r.read v).Faulty := by
  unfold read
  split
  · rename_i es
    have hChanges : (Checked.all (r.fields.map fun f => readField f es)).Faulty := by
      refine Checked.Faulty.all fun c hc => ?_
      obtain ⟨f, hf, rfl⟩ := List.mem_map.mp hc
      exact readField_faulty (h f hf) es
    exact FailsBy.ite (fail_faulty _) (FailsBy.map (hChanges.both (checkKeys_faulty r.fields es)))
  · exact fail_faulty _

end Record

theorem listField_faulty {required : Bool} {item : Record β} {store : List β → α → α}
    {shown : α → List β} (h : item.Faulty) :
    (listField name required item store shown).Faulty :=
  Field.of_faulty (listOf_faulty (Record.read_faulty h))

end

/-! ## Definitions and settings -/

theorem permission_faulty : permission.Faulty := by
  simp only [Record.Faulty, permission, List.forall_mem_cons]
  exact ⟨Field.of_faulty nonEmptyText_faulty, labelField_faulty, by simp⟩

theorem validator_faulty : validator.Faulty := by
  simp only [Record.Faulty, validator, List.forall_mem_cons]
  exact ⟨Field.of_faulty validatorKind_faulty, Field.of_faulty bag_faulty, by simp⟩

theorem argument_faulty : argument.Faulty := by
  simp only [Record.Faulty, argument, List.forall_mem_cons]
  exact ⟨nameField_faulty, labelField_faulty, flag_faulty, flag_faulty,
    listField_faulty validator_faulty, by simp⟩

theorem property_faulty : property.Faulty := by
  simp only [Record.Faulty, property, List.forall_mem_cons]
  exact ⟨nameField_faulty, labelField_faulty, flag_faulty, flag_faulty, flag_faulty,
    listField_faulty permission_faulty, by simp⟩

theorem relationship_faulty : relationship.Faulty := by
  simp only [Record.Faulty, relationship, List.forall_mem_cons]
  exact ⟨nameField_faulty, Field.of_faulty nonEmptyText_faulty, flag_faulty, flag_faulty, by simp⟩

theorem operation_faulty : operation.Faulty := by
  simp only [Record.Faulty, operation, List.forall_mem_cons]
  exact ⟨nameField_faulty, labelField_faulty, listField_faulty argument_faulty,
    listField_faulty permission_faulty, by simp⟩

theorem model_faulty : model.Faulty := by
  simp only [Record.Faulty, model, List.forall_mem_cons]
  exact ⟨nameField_faulty, listField_faulty property_faulty, listField_faulty relationship_faulty,
    listField_faulty operation_faulty, by simp⟩

theorem configuration_faulty : Configuration.record.Faulty := by
  simp only [Record.Faulty, Configuration.record, List.forall_mem_cons]
  exact ⟨Field.of_faulty (shortText_faulty 128), Field.of_faulty nonEmptyText_faulty,
    Field.of_faulty nonEmptyText_faulty, flag_faulty, Field.of_faulty (within_faulty 40 200),
    flag_faulty, flag_faulty, by simp⟩

theorem definitions_faulty : Definitions.record.Faulty := by
  simp only [Record.Faulty, Definitions.record, List.forall_mem_cons]
  exact ⟨listField_faulty model_faulty, by simp⟩

theorem split_faulty (raw : Value) : (split raw).Faulty := by
  unfold split
  split
  · exact FailsBy.ok _
  · split
    · exact FailsBy.ok _
    · exact FailsBy.error_iff.mpr (List.cons_ne_nil _ _)
  · exact fail_faulty _

theorem checkParts_faulty (models config : Value) : (checkParts models config).Faulty := by
  refine Faulty.both (FailsBy.map (Record.read_faulty definitions_faulty _)) ?_
  exact (Record.read_faulty configuration_faulty _).under _

theorem check_faulty (raw : Value) : (check raw).Faulty :=
  FailsBy.bind (split_faulty raw) fun parts => checkParts_faulty parts.1 parts.2

/-- Definitions that are refused come with a violation. -/
theorem parse_faulty {raw : Value} {vs : List Violation}
    (h : (parse raw).value = .error (.invalidDefinitions vs)) : vs ≠ [] := by
  have hMap : (check raw).mapError Failure.invalidDefinitions = .error (.invalidDefinitions vs) := h
  cases hCheck : check raw with
  | ok read =>
    rw [hCheck] at hMap
    cases hMap
  | error ws =>
    rw [hCheck] at hMap
    obtain rfl := Failure.invalidDefinitions.inj (Except.error.inj hMap)
    exact check_faulty raw ws hCheck

end Input

end EntityGraph
