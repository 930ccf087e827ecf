import EntityGraph.Proofs.Clean
import EntityGraph.Proofs.Exposure
import EntityGraph.Proofs.Words

/-!
# Entities that share their classes

The class that serves an entity and the class of its service are named by the words of its name.
The audit compares the names themselves, so two entities whose names are written with different
capitals pass it, and if their names consist of the same words they get the same classes.  In the
module the later class then takes the place of the earlier one.

* `Sound.isPlain`: the names of audited entities are made of letters and digits;
* `Sound.nodup_map_iff`: when names that are made of those of audited entities differ;
* `Handlers.classNames_eq`: the names of the classes in a module;
* `classes_shared_iff`: which entities share their classes, and that no others do.
-/

namespace EntityGraph

open Outcome Naming

namespace Sound

variable {models : List Model}

theorem isPlain (h : Sound models) {m : Model} (hm : m ∈ models) : IsPlain m.name := by
  intro c hc
  have hPart := part_of_isIdentifier (h.wellFormed m hm).name c hc
  have hPascal := h.clean.pascal m hm
  unfold isPascalCase at hPascal
  cases hName : m.name.toList with
  | nil => simp [hName] at hc
  | cons first rest =>
    rw [hName] at hc hPascal
    simp only [Bool.and_eq_true, Bool.not_eq_true', List.contains_eq_mem,
      decide_eq_false_iff_not] at hPascal
    have hScore : c ≠ '_' := fun hEq => hPascal.1.2 (hEq ▸ hc)
    simpa [Input.isIdentifierPart, hScore] using hPart

/-- Names that are made of those of audited entities differ if no two come from the same words. -/
theorem nodup_map_iff (h : Sound models) {derived : String → String}
    (hDerived : ∀ a b, IsPlain a → IsPlain b → (derived a = derived b ↔ SameWords a b)) :
    (models.map fun m => derived m.name).Nodup ↔
      models.Pairwise fun m m' => ¬ SameWords m.name m'.name := by
  rw [List.Nodup, List.pairwise_map]
  refine List.Pairwise.iff_of_mem fun {m m'} hm hm' => not_congr ?_
  exact hDerived m.name m'.name (h.isPlain hm) (h.isPlain hm')

end Sound

namespace Handlers

variable {config : Configuration} {models : List Model} {pieces : List Piece}

/-- The names of the classes of a module are those of its entities. -/
theorem classNames_eq [Limits] (h : models.mapM (render config) = .ok pieces) :
    pieces.map (·.handlers.name) = models.map (fun m => resolverClass m.name) ∧
      pieces.map (·.handlers.service) = models.map fun m => serviceClass m.name := by
  have hClass : ∀ m p, render config m = .ok p →
      p.handlers.name = resolverClass m.name ∧ p.handlers.service = serviceClass m.name := by
    intro m p hPiece
    obtain ⟨xs, -, hEq⟩ := Piece.classOf_eq_ok.mp (render_handlers hPiece)
    rw [hEq]
    exact ⟨rfl, rfl⟩
  exact ⟨mapM_map_eq h fun m p hPiece => (hClass m p hPiece).1,
    mapM_map_eq h fun m p hPiece => (hClass m p hPiece).2⟩

end Handlers

/-- Two audited entities share the class of their handlers exactly if their names consist of the
same words, and then they share the class of the service, too; their names differ in the case of
letters only.  The classes of a module are different exactly if no two entities are in this position. -/
theorem classes_shared_iff [Limits] {raw : Value} {d : Definitions} {settings : Configuration}
    {fs : Audit.Findings} (hParse : (Input.parse raw).value = .ok (d, settings))
    (hAudit : (Audit.full d.models Schema.defaultScalars).value = .ok fs)
    (hErrors : fs.hasErrors = false) (hWarnings : fs.hasWarnings = false) :
    (∀ m ∈ d.models, ∀ m' ∈ d.models,
      (resolverClass m.name = resolverClass m'.name ↔ SameWords m.name m'.name) ∧
      (serviceClass m.name = serviceClass m'.name ↔ SameWords m.name m'.name) ∧
      (SameWords m.name m'.name → lower m.name.toList = lower m'.name.toList)) ∧
    ∀ config scalars output, (compile config scalars d.models).value = .ok output → ∃ pieces,
      d.models.mapM (Handlers.render config) = .ok pieces ∧
      (Handlers.Module.mk pieces "").source config = .ok output.source ∧
      ((pieces.map (·.handlers.name)).Nodup ↔
        d.models.Pairwise fun m m' => ¬ SameWords m.name m'.name) ∧
      ((pieces.map (·.handlers.service)).Nodup ↔
        d.models.Pairwise fun m m' => ¬ SameWords m.name m'.name) := by
  have hSound : Sound d.models := .of_parse hParse hAudit hErrors hWarnings
  refine ⟨fun m hm m' hm' => ?_, fun config scalars output hOutput => ?_⟩
  · have hPlain := hSound.isPlain hm
    have hPlain' := hSound.isPlain hm'
    exact ⟨resolverClass_eq_iff hPlain hPlain', serviceClass_eq_iff hPlain hPlain',
      SameWords.lower_eq hPlain hPlain'⟩
  · obtain ⟨registry, pieces, -, hPieces, -, -, hSource⟩ := compile_eq_ok.mp hOutput
    obtain ⟨hNames, hServices⟩ := Handlers.classNames_eq hPieces
    refine ⟨pieces, hPieces, hSource, ?_, ?_⟩
    · rw [hNames]
      exact hSound.nodup_map_iff fun a b => resolverClass_eq_iff
    · rw [hServices]
      exact hSound.nodup_map_iff fun a b => serviceClass_eq_iff

/-- A book that is shown, under a given name. -/
def bookNamed (name : String) : Model :=
  ⟨name, [⟨"title", "String", false, true, false, []⟩], [], [⟨"get", "Show", [], []⟩]⟩

/-- Two of them whose names are the same words, written differently. -/
def httpBooks : List Model := [bookNamed "HTTPBook", bookNamed "HttpBook"]

/-- A value that reads as these entities. -/
def httpBooksValue : Value :=
  .list (["HTTPBook", "HttpBook"].map fun name => Value.record [("name", .text name),
    ("properties", .list [Value.record [("name", .text "title"), ("type", .text "String")]]),
    ("operations", .list [Value.record [("name", .text "get"), ("type", .text "Show")]])])

/-- An audit of the two entities finds nothing, and in their module one class takes the place of the
other. -/
theorem httpBooks_shared :
    (∃ d settings, (Input.parse httpBooksValue).value = .ok (d, settings) ∧ d.models = httpBooks ∧
      (Audit.full d.models Schema.defaultScalars).value = .ok []) ∧
    "HTTPBook" ≠ "HttpBook" ∧ resolverClass "HTTPBook" = resolverClass "HttpBook" ∧
    serviceClass "HTTPBook" = serviceClass "HttpBook" ∧
    ∃ output pieces, (compile { formatSource := false } none httpBooks).value = .ok output ∧
      httpBooks.mapM (Handlers.render { formatSource := false }) = .ok pieces ∧
      (Handlers.Module.mk pieces "").source { formatSource := false } = .ok output.source ∧
      ¬ (pieces.map (·.handlers.name)).Nodup ∧ ¬ (pieces.map (·.handlers.service)).Nodup := by
  have hParse : (Input.parse httpBooksValue).value = .ok (.ofModels httpBooks, {}) := by rfl
  have hAudit : (Audit.full httpBooks Schema.defaultScalars).value = .ok [] := by rfl
  have hDone : (compile { formatSource := false } none httpBooks).value.isOk = true := by
    decide +kernel
  have hSame : SameWords "HTTPBook" "HttpBook" := by decide +kernel
  obtain ⟨hModels, hModule⟩ := classes_shared_iff hParse hAudit (by rfl) (by rfl)
  obtain ⟨hResolver, hService, -⟩ := hModels (bookNamed "HTTPBook") (.head _)
    (bookNamed "HttpBook") (.tail _ (.head _))
  refine ⟨⟨_, _, hParse, rfl, hAudit⟩, by decide, hResolver.mpr hSame, hService.mpr hSame, ?_⟩
  cases hOutput : (compile { formatSource := false } none httpBooks).value with
  | error failure =>
    rw [hOutput] at hDone
    cases hDone
  | ok output =>
    obtain ⟨pieces, hPieces, hSource, hNames, hServices⟩ := hModule _ _ output hOutput
    have hShared : ¬ httpBooks.Pairwise fun m m' => ¬ SameWords m.name m'.name := by
      intro hApart
      exact (List.pairwise_cons.mp hApart).1 (bookNamed "HttpBook") (.head _) hSame
    exact ⟨output, pieces, rfl, hPieces, hSource, fun h => hShared (hNames.mp h),
      fun h => hShared (hServices.mp h)⟩

end EntityGraph
