import EntityGraph.Proofs.Input.Definitions
import EntityGraph.Proofs.Input.Faults
import Mathlib.Data.List.Infix

/-!
# Batches of violations

A check that has several parts reports what each part finds by itself, the parts in their order and
every path led on from the whole: a list its items, a record its fields and then its keys, a bag its
keys, and definitions their entities and then the settings.  So what a part finds stands in the
batch without a gap, however deep the part is.  The one exception is a mapping with a key some of
whose code points are no characters: it is refused as a whole, and what its fields would find is not
reported.

* `Checked.violations_all`, `listOf_violations`, `Record.violations_map`: the violations of a check
  with parts;
* `Finds`: what the check of a part finds by itself;
* `Finds.segment`: it stands in the batch of the whole;
* `batch`, `violations_checkParts`: the batch of definitions and settings;
* `batch_compositional`: definitions are refused with this batch, if with any.
-/

namespace EntityGraph

/-- The same violation seen from further out, at the start of a path. -/
def Violation.below (path : List Step) (v : Violation) : Violation :=
  { v with path := path ++ v.path }

theorem Violation.below_cons (step : Step) (path : List Step) :
    Violation.below (step :: path) = Violation.under step ∘ Violation.below path := rfl

theorem Violation.below_append (path path' : List Step) :
    Violation.below (path ++ path') = Violation.below path ∘ Violation.below path' := by
  funext v
  rw [Function.comp_apply, Violation.below, Violation.below, Violation.below, List.append_assoc]

theorem Violation.below_singleton (step : Step) :
    Violation.below [step] = Violation.under step := rfl

namespace Checked

variable {α β : Type}

theorem violations_map (c : Checked α) (f : α → β) :
    violations (c.map f) = violations c := by
  cases c <;> rfl

theorem violations_under (step : Step) (c : Checked α) :
    (under step c).violations = c.violations.map (Violation.under step) := by
  cases c <;> rfl

theorem violations_both (c : Checked α) (d : Checked β) :
    (both c d).violations = c.violations ++ d.violations := by
  cases c with
  | ok a => cases d <;> rfl
  | error vs =>
    cases d with
    | ok b => exact (List.append_nil vs).symm
    | error ws => rfl

theorem violations_all (cs : List (Checked α)) :
    (all cs).violations = cs.flatMap violations := by
  induction cs with
  | nil => rfl
  | cons c cs ih => rw [all, violations_map, violations_both, ih, List.flatMap_cons]

/-- An outcome that refuses nothing without a violation is a value if it has none. -/
theorem Faulty.violations_eq_nil {c : Checked α} (h : c.Faulty) :
    c.violations = [] ↔ ∃ a, c = .ok a := by
  constructor
  · intro hNone
    cases c with
    | ok a => exact ⟨a, rfl⟩
    | error vs => exact absurd hNone (h vs rfl)
  · rintro ⟨a, rfl⟩
    rfl

end Checked

namespace Input

open Checked Outcome

variable {α β : Type}

/-! ## Checks with parts -/

/-- The items of a value that is read as a list. -/
def items? : Value → Option (List Value)
  | .list xs | .tuple xs | .set xs => some xs
  | _ => none

/-- A list has the violations of its items. -/
theorem listOf_violations {item : Value → Checked α} {v : Value} {xs : List Value}
    (h : items? v = some xs) :
    (listOf item v).violations =
      xs.zipIdx.flatMap fun e => (item e.1).violations.map (.below [.index e.2]) := by
  have hAll : listOf item v =
      Checked.all (xs.mapIdx fun i x => Checked.under (.index i) (item x)) := by
    unfold items? at h
    split at h <;> simp_all [listOf]
  rw [hAll, violations_all, List.mapIdx_eq_zipIdx_map, List.flatMap_map]
  simp only [violations_under]
  rfl

/-- What a reading finds wrong with the entries of a bag: the keys that are no texts. -/
theorem bag_violations (es : List (Value × Value)) :
    (bag (.map es)).violations = es.flatMap fun e =>
      (textKey e.1).violations.map (.below [.ofKey e.1, .name "[key]"]) := by
  rw [bag, violations_map, violations_all, List.flatMap_map]
  simp only [violations_under, violations_map, List.map_map]
  rfl

namespace Record

/-- What a field finds wrong with the entries of a mapping. -/
def fieldViolations (es : List (Value × Value)) (f : Field α) : List Violation :=
  match Value.get? f.name es with
  | some v => (f.reading v).violations.map (.below [.name f.name])
  | none => if f.required then [⟨[.name f.name], .missing⟩] else []

theorem readField_violations (f : Field α) (es : List (Value × Value)) :
    (readField f es).violations = fieldViolations es f := by
  unfold readField fieldViolations
  cases Value.get? f.name es with
  | some v => exact violations_under _ _
  | none =>
    cases f.required with
    | true => rfl
    | false => rfl

theorem checkKeys_violations (fields : List (Field α)) (es : List (Value × Value)) :
    (checkKeys fields es).violations = es.filterMap fun e => keyViolation? fields e.1 := by
  unfold checkKeys
  split
  · rename_i hNone
    exact hNone.symm
  · rfl

/-- A mapping has the violations of its fields, in the order of declaration, and then those of its
keys, in its own order; a mapping with a broken key has the violation of this key only. -/
theorem violations_map (r : Record α) (es : List (Value × Value)) :
    (r.read (.map es)).violations =
      if hasBrokenKey es then [⟨[], .textUndecodable⟩]
      else r.fields.flatMap (fieldViolations es) ++
        es.filterMap fun e => keyViolation? r.fields e.1 := by
  show (r.readEntries es).violations = _
  split
  · rename_i hBroken
    rw [readEntries]
    exact congrArg violations (if_pos hBroken)
  · rename_i hWhole
    rw [readEntries_eq r (Bool.not_eq_true _ ▸ hWhole), Checked.violations_map, violations_both,
      violations_all, List.flatMap_map, checkKeys_violations]
    simp only [readField_violations]

end Record

/-! ## Parts -/

/-- A part of a value that a reading checks, the path to it and what this check finds by itself.
The parts of a mapping with a broken key are not checked. -/
inductive Finds : {α : Type} → (Value → Checked α) → Value → List Step → List Violation → Prop where
  | whole {α : Type} (reading : Value → Checked α) (v : Value) :
      Finds reading v [] (reading v).violations
  | item {α : Type} {item : Value → Checked α} {v x : Value} {xs : List Value} {i : Nat}
      {path : List Step} {vs : List Violation} :
      items? v = some xs → xs[i]? = some x → Finds item x path vs →
        Finds (listOf item) v (.index i :: path) vs
  | field {α β : Type} {r : Record α} {name : String} {required : Bool}
      {reading : Value → Checked β} {store : β → α → α} {shown : α → Value}
      {es : List (Value × Value)} {w : Value} {path : List Step} {vs : List Violation} :
      Record.hasBrokenKey es = false → .of name required reading store shown ∈ r.fields →
        Value.get? name es = some w → Finds reading w path vs →
          Finds r.read (.map es) (.name name :: path) vs
  | absent {α : Type} {r : Record α} {f : Field α} {es : List (Value × Value)} :
      Record.hasBrokenKey es = false → f ∈ r.fields → f.required = true →
        Value.get? f.name es = none → Finds r.read (.map es) [.name f.name] [⟨[], .missing⟩]
  | key {α : Type} {r : Record α} {es : List (Value × Value)} {e : Value × Value}
      {v : Violation} :
      Record.hasBrokenKey es = false → e ∈ es → Record.keyViolation? r.fields e.1 = some v →
        Finds r.read (.map es) [] [v]
  | bagKey {es : List (Value × Value)} {e : Value × Value} :
      e ∈ es → Finds bag (.map es) [.ofKey e.1, .name "[key]"] (textKey e.1).violations

theorem segment_flatMap {x : α} {xs : List α} (h : x ∈ xs) (f : α → List β) :
    f x <:+: xs.flatMap f := by
  rw [List.flatMap_def]
  exact List.infix_of_mem_flatten (List.mem_map_of_mem h)

namespace Record

variable {r : Record α} {es : List (Value × Value)}

/-- What a field finds is reported for the mapping. -/
theorem fieldViolations_segment (hKeys : hasBrokenKey es = false) {f : Field α} (hf : f ∈ r.fields) :
    fieldViolations es f <:+: (r.read (.map es)).violations := by
  rw [violations_map, hKeys, if_neg Bool.false_ne_true]
  exact (segment_flatMap hf _).trans (List.prefix_append _ _).isInfix

/-- So is what a key is refused for. -/
theorem keyViolation_segment (hKeys : hasBrokenKey es = false) {e : Value × Value} (he : e ∈ es)
    {v : Violation} (h : keyViolation? r.fields e.1 = some v) :
    [v] <:+: (r.read (.map es)).violations := by
  rw [violations_map, hKeys, if_neg Bool.false_ne_true]
  refine List.IsInfix.trans ?_ (List.suffix_append _ _).isInfix
  have hMem : v ∈ es.filterMap fun e => keyViolation? r.fields e.1 :=
    List.mem_filterMap.mpr ⟨e, he, h⟩
  obtain ⟨before, after, hSplit⟩ := List.append_of_mem hMem
  exact ⟨before, after, by rw [hSplit, List.append_assoc, List.singleton_append]⟩

end Record

/-- What a part finds by itself stands in the batch of the whole without a gap, its paths led on
from the whole. -/
theorem Finds.segment {reading : Value → Checked α} {v : Value} {path : List Step}
    {vs : List Violation} (h : Finds reading v path vs) :
    vs.map (.below path) <:+: (reading v).violations := by
  induction h with
  | whole reading v =>
    rw [show Violation.below [] = id from rfl, List.map_id]
  | @item _ item v x xs i path vs hItems hItem _ ih =>
    rw [Violation.below_cons, ← List.map_map, listOf_violations hItems]
    exact (ih.map _).trans (segment_flatMap (List.mk_mem_zipIdx_iff_getElem?.mpr hItem)
      fun e : Value × Nat => (item e.1).violations.map (Violation.below [.index e.2]))
  | @field _ _ r name required reading store shown es w path vs hKeys hField hValue _ ih =>
    rw [Violation.below_cons, ← List.map_map]
    refine (ih.map _).trans (List.IsInfix.trans ?_ (Record.fieldViolations_segment hKeys hField))
    rw [Record.fieldViolations, show Value.get? (Field.of name required reading store shown).name es
      = some w from hValue]
    show _ <:+: (violations ((reading w).map store)).map (Violation.below [.name name])
    rw [Checked.violations_map, Violation.below_singleton]
  | @absent _ r f es hKeys hField hRequired hNone =>
    have hFinds : Record.fieldViolations es f = [⟨[.name f.name], .missing⟩] := by
      rw [Record.fieldViolations, hNone]
      exact if_pos hRequired
    have hSegment := Record.fieldViolations_segment hKeys hField
    rw [hFinds] at hSegment
    exact hSegment
  | key hKeys he hKey => exact Record.keyViolation_segment hKeys he hKey
  | @bagKey es e he =>
    rw [bag_violations]
    exact segment_flatMap he fun e =>
      (textKey e.1).violations.map (Violation.below [.ofKey e.1, .name "[key]"])

/-! ## Definitions and settings -/

/-- The violations of entities and settings: those of each entity by itself, in order, and then
those of the settings by themselves. -/
def batch (xs : List Value) (config : Value) : List Violation :=
  (xs.zipIdx.flatMap fun e =>
    (model.read e.1).violations.map (.below [.name "models", .index e.2])) ++
    (Configuration.record.read config).violations.map (.below [.name "config"])

theorem violations_checkParts (xs : List Value) (config : Value) :
    (checkParts (.list xs) config).violations = batch xs config := by
  rw [checkParts, violations_both, violations_under, Definitions.read_record, Checked.violations_map,
    violations_under, listOf_violations (v := .list xs) rfl, List.map_flatMap, batch]
  simp only [List.map_map]
  rfl

/-- Nothing is wrong exactly if every entity and the settings can be read. -/
theorem batch_eq_nil {xs : List Value} {config : Value} :
    batch xs config = [] ↔
      (∀ x ∈ xs, ∃ m, model.read x = .ok m) ∧ ∃ c, Configuration.record.read config = .ok c := by
  rw [batch, List.append_eq_nil_iff, List.map_eq_nil_iff,
    (Record.read_faulty configuration_faulty config).violations_eq_nil, List.flatMap_eq_nil_iff]
  refine and_congr_left fun _ => ?_
  simp only [List.map_eq_nil_iff, (Record.read_faulty model_faulty _).violations_eq_nil]
  constructor
  · intro h x hx
    obtain ⟨i, hi, rfl⟩ := List.getElem_of_mem hx
    exact h (xs[i], i) (List.mk_mem_zipIdx_iff_getElem?.mpr (List.getElem?_eq_getElem hi))
  · intro h e he
    exact h e.1 (List.fst_mem_of_mem_zipIdx he)

/-- Entities in a list, and settings beside them, are refused with the batch of their violations,
if there are any. -/
theorem parse_map {es : List (Value × Value)} {xs : List Value}
    (h : Value.get? "models" es = some (.list xs)) :
    (parse (.map es)).value =
      (checkParts (.list xs) (settings es)).mapError Failure.invalidDefinitions := by
  show (split (.map es) >>= fun parts => checkParts parts.1 parts.2).mapError _ = _
  rw [show split (.map es) = .ok (.list xs, settings es) by rw [split, h]]
  rfl

/-- Entities in a list and any settings beside them are refused exactly if one of the entities or
the settings cannot be read, and then with the violations of each entity by itself and those of the
settings by themselves.  What a part of an entity or of the settings finds by itself stands in this
batch.  A mapping reports its fields and then its keys, unless one of its keys is broken. -/
theorem batch_compositional {es : List (Value × Value)} {xs : List Value}
    (h : Value.get? "models" es = some (.list xs)) :
    ((∃ failure, (parse (.map es)).value = .error failure) ↔
      (∃ x ∈ xs, ¬ ∃ m, model.read x = .ok m) ∨
        ¬ ∃ c, Configuration.record.read (settings es) = .ok c) ∧
    (∀ failure, (parse (.map es)).value = .error failure →
      failure = .invalidDefinitions (batch xs (settings es))) ∧
    (∀ (i : Nat) x path vs, xs[i]? = some x → Finds model.read x path vs →
      vs.map (.below ([.name "models", .index i] ++ path)) <:+: batch xs (settings es)) ∧
    (∀ path vs, Finds Configuration.record.read (settings es) path vs →
      vs.map (.below ([.name "config"] ++ path)) <:+: batch xs (settings es)) ∧
    ∀ {α : Type} (r : Record α) (part : List (Value × Value)),
      (r.read (.map part)).violations =
        if Record.hasBrokenKey part then [⟨[], .textUndecodable⟩]
        else r.fields.flatMap (Record.fieldViolations part) ++
          part.filterMap fun e => Record.keyViolation? r.fields e.1 := by
  have hParse := parse_map h
  have hBatch := violations_checkParts xs (settings es)
  have hFaulty := checkParts_faulty (.list xs) (settings es)
  refine ⟨?_, ?_, ?_, ?_, fun r part => Record.violations_map r part⟩
  · rw [hParse, mapError_fails, ← hFaulty.violations_eq_nil, hBatch, batch_eq_nil, not_and_or]
    simp only [not_forall, exists_prop]
  · intro failure hError
    rw [hParse] at hError
    cases hCheck : checkParts (.list xs) (settings es) with
    | ok p =>
      rw [hCheck] at hError
      cases hError
    | error vs =>
      rw [hCheck] at hError hBatch
      rw [← hBatch]
      exact (Except.error.inj hError).symm
  · intro i x path vs hItem hPart
    rw [Violation.below_append, ← List.map_map, batch]
    refine (hPart.segment.map _).trans (List.IsInfix.trans ?_ (List.prefix_append _ _).isInfix)
    exact segment_flatMap (List.mk_mem_zipIdx_iff_getElem?.mpr hItem) fun e : Value × Nat =>
      (model.read e.1).violations.map (Violation.below [.name "models", .index e.2])
  · intro path vs hPart
    rw [Violation.below_append, ← List.map_map, batch]
    exact (hPart.segment.map _).trans (List.suffix_append _ _).isInfix

/-- An entity with a key that is half of a surrogate pair, beside a name that is no text. -/
def brokenEntity : List (Value × Value) :=
  [(.text "name", .int 5), (.illFormed [.ofCode 0xD83D], .int 1)]

/-- This entity, one that is no mapping, and settings with a value that is too small. -/
def brokenDefinitions : List (Value × Value) :=
  [(.text "models", .list [.map brokenEntity, .int 7]),
    (.text "config", .map [(.text "line_length", .int 39)])]

/-- The faults of every part are reported, but the two of the fields of the first entity. -/
theorem brokenDefinitions_hides :
    (parse (.map brokenDefinitions)).value = .error (.invalidDefinitions [
      ⟨[.name "models", .index 0], .textUndecodable⟩,
      ⟨[.name "models", .index 1], .recordExpected "Model"⟩,
      ⟨[.name "config", .name "line_length"], .tooSmall 40⟩]) ∧
    model.fields.flatMap (Record.fieldViolations brokenEntity) =
      [⟨[.name "name"], .textExpected⟩, ⟨[.name "properties"], .missing⟩] := by
  have hModels : Value.get? "models" brokenDefinitions =
      some (.list [.map brokenEntity, .int 7]) := by rfl
  obtain ⟨hRefused, hReported, -⟩ := batch_compositional hModels
  have hBroken : ¬ ∃ m, model.read (.int 7) = .ok m := by
    rintro ⟨m, hm⟩
    cases hm
  obtain ⟨failure, hFailure⟩ := hRefused.mpr (.inl ⟨.int 7, by simp, hBroken⟩)
  refine ⟨?_, rfl⟩
  rw [hFailure, hReported failure hFailure]
  rfl

end Input

end EntityGraph
