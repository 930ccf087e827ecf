import EntityGraph.Proofs.Stores

/-!
# Stores in lock step

The stores of a session are written by different steps: the object types by name, where a later type
takes the place of an earlier one, and the entities, the bodies and the imports at their ends.  After
any calls, those included that fail, they belong to the same entities.

* `Stores.InStep`: the stores belong to the entities of the registry;
* `InStep.serve`, `inStep_served`: every call preserves this, and so does any run;
* `Stores.Same`: all but the output and the kept fields is the same;
* `stores_in_step`: what is in the stores after any calls, and what an attempt to finalize does.
-/

namespace EntityGraph

open Outcome Schema

namespace Stores

variable [Limits] {config : Configuration} {scalars : List String} {s : Stores}

/-! ## The invariant -/

/-- The stores belong to the entities of the registry, in their order. -/
structure InStep (config : Configuration) (scalars : List String) (s : Stores) : Prop where
  registry : Schema.Trail scalars s.registry.models s.registry
  bodies : s.registry.models.mapM (Handlers.render config) = .ok s.bodies
  imports : s.imports = s.bodies.flatMap (·.imports)

theorem check_eq_ok {m : Model} {piece : Handlers.Piece} :
    s.check config m = .ok piece ↔ s.output = none ∧ Handlers.render config m = .ok piece ∧
      checkModel s.registry m = .ok () := by
  unfold check checkOpen
  cases s.output with
  | some output => simp [bind, Except.bind]
  | none =>
    cases Handlers.render config m with
    | error failure => simp [bind, Except.bind]
    | ok rendered =>
      cases checkModel s.registry m <;> simp [bind, Except.bind, pure, Except.pure]

namespace InStep

theorem start (config : Configuration) (scalars : Option (List String)) :
    InStep config (scalars.getD defaultScalars) (start scalars) :=
  ⟨.start _, rfl, rfl⟩

/-- An addition takes the same entity into every store, or is refused by all of them. -/
theorem add (h : InStep config scalars s) (m : Model) :
    InStep config scalars ((Stores.add config m).on s).2 := by
  rw [add_run]
  cases hCheck : s.check config m with
  | error failure => exact h
  | ok piece =>
    obtain ⟨-, hPiece, hModel⟩ := check_eq_ok.mp hCheck
    refine ⟨?_, ?_, ?_⟩
    · exact h.registry.add (addModel_eq_ok.mpr ⟨hModel, rfl⟩)
    · change (s.registry.models ++ [m]).mapM (Handlers.render config) = .ok (s.bodies ++ [piece])
      rw [List.mapM_append, h.bodies, List.mapM_cons, hPiece]
      rfl
    · simp [withModel, h.imports]

theorem addAll (h : InStep config scalars s) (ms : List Model) :
    InStep config scalars ((Stores.addAll config ms).on s).2 := by
  induction ms generalizing s with
  | nil => exact h
  | cons m ms ih =>
    have hNext := h.add m
    rw [Stores.addAll, Procedure.on_bind]
    rcases hAdd : (Stores.add config m).on s with ⟨failure | _, next⟩
    · rwa [hAdd] at hNext
    · rw [hAdd] at hNext
      exact ih hNext

/-- An attempt to build a schema only keeps fields. -/
theorem afterBuild (h : InStep config scalars s) : InStep config scalars s.afterBuild := by
  have hModels : s.afterBuild.registry.models = s.registry.models :=
    Session.build_models s.registry
  refine ⟨?_, ?_, h.imports⟩
  · rw [hModels]
    exact h.registry.create
  · rw [hModels]
    exact h.bodies

/-- An output makes no difference. -/
theorem withOutput (h : InStep config scalars s) (output : Option Output) :
    InStep config scalars { s with output } :=
  ⟨h.registry, h.bodies, h.imports⟩

theorem finalize (h : InStep config scalars s) :
    InStep config scalars ((Stores.finalize config).on s).2 := by
  cases hOutput : s.output with
  | some output =>
    rw [finalize_done config hOutput]
    exact h
  | none =>
    rw [finalize_run config hOutput]
    split
    · exact h.afterBuild
    · exact h.afterBuild.withOutput _

/-- A call preserves the invariant, whatever comes of it. -/
theorem serve (h : InStep config scalars s) (request : Request) :
    InStep config scalars (s.serve config request) := by
  cases request with
  | add m => exact h.add m
  | addAll ms => exact h.addAll ms
  | finalize => exact h.finalize

/-- The object types are those of the entities, each name once and with its last entity. -/
theorem objects (h : InStep config scalars s) :
    s.registry.objects.keys = firstOccurrences (s.registry.models.map (·.name)) ∧
    ∀ m slot, IsLast s.registry.models slot m →
      s.registry.objects.get? m.name = some slot ∧
      ∃ e, s.registry.slots[slot]? = some e ∧ e.model = m ∧
        ∀ fields, e.fields = some fields →
          ∃ old : Registry, old.Precedes s.registry ∧ modelFields old m = .ok fields := by
  have hKeys := keys_register h.registry.fresh
  refine ⟨hKeys, fun m slot hLast => ?_⟩
  have hObject := h.registry.object_iff.mpr ⟨m, rfl, hLast⟩
  obtain ⟨e, hSlot, -⟩ := h.registry.coherent.object hObject
  have hModel : e.model = m :=
    Option.some.inj ((h.registry.model_at hSlot).symm.trans hLast.1)
  refine ⟨hObject, e, hSlot, hModel, fun fields hFields => ?_⟩
  obtain ⟨old, hOld, hKept, -⟩ :=
    h.registry.coherent.kept e (List.mem_of_getElem? hSlot) fields hFields
  exact ⟨old, hOld, hModel ▸ hKept⟩

end InStep

/-- After any calls the stores are in step. -/
theorem inStep_served (config : Configuration) (scalars : Option (List String))
    (requests : List Request) :
    InStep config (scalars.getD defaultScalars) ((start scalars).served config requests) := by
  induction requests using List.reverseRecOn with
  | nil => exact .start config scalars
  | append_singleton requests request ih =>
    rw [served, List.foldl_append]
    exact ih.serve request

/-! ## Attempts to finalize -/

/-- All that was taken in is the same; fields may have been worked out for an object type. -/
structure Same (s s' : Stores) : Prop where
  scalars : s'.registry.scalars = s.registry.scalars
  models : s'.registry.models = s.registry.models
  objects : s'.registry.objects = s.registry.objects
  slots : s'.registry.slots.map (·.model) = s.registry.slots.map (·.model)
  imports : s'.imports = s.imports
  bodies : s'.bodies = s.bodies

omit [Limits] in
theorem same_afterBuild (s : Stores) : s.Same s.afterBuild := by
  have hForget := forget_build s.registry
  have hScalars := congrArg (·.scalars) hForget
  have hModels := congrArg (·.models) hForget
  have hObjects := congrArg (·.objects) hForget
  have hSlots := congrArg (fun r : Registry => r.slots.map (·.model)) hForget
  simp only [Registry.forget, List.map_map] at hSlots
  exact ⟨hScalars, hModels, hObjects, hSlots, rfl, rfl⟩

/-- An attempt to finalize takes nothing in and leaves an output exactly if it gives one. -/
theorem finalize_keeps (config : Configuration) (s : Stores) :
    s.Same ((finalize config).on s).2 ∧
    ((finalize config).on s).2.output = ((finalize config).on s).1.toOption := by
  cases hOutput : s.output with
  | some output =>
    rw [finalize_done config hOutput]
    exact ⟨⟨rfl, rfl, rfl, rfl, rfl, rfl⟩, hOutput⟩
  | none =>
    have hSame := s.same_afterBuild
    rw [finalize_run config hOutput]
    split
    · exact ⟨hSame, hOutput⟩
    · exact ⟨⟨hSame.scalars, hSame.models, hSame.objects, hSame.slots, hSame.imports, hSame.bodies⟩,
        rfl⟩

/-- With an output, entities are refused. -/
theorem add_finalized (config : Configuration) {output : Output} (h : s.output = some output)
    (m : Model) : (add config m).on s = (.error (.sessionFinalized m.name), s) := by
  have hCheck : s.check config m = .error (.sessionFinalized m.name) := by
    simp [check, checkOpen, h, bind, Except.bind]
  rw [add_run, hCheck]

/-- With an output, no call changes anything. -/
theorem served_finalized (config : Configuration) {output : Output} (h : s.output = some output)
    (requests : List Request) : s.served config requests = s := by
  induction requests with
  | nil => rfl
  | cons request requests ih =>
    have hServe : s.serve config request = s := by
      cases request with
      | add m => rw [serve, add_finalized config h]
      | finalize => rw [serve, finalize_done config h]
      | addAll ms =>
        cases ms with
        | nil => rfl
        | cons m ms => rw [serve, addAll, Procedure.on_bind, add_finalized config h]
    rw [served, List.foldl_cons, hServe]
    exact ih

end Stores

/-- After any calls on a new session, those included that fail, its stores belong to the same
entities: the object types to their names in the order of first registration, each to the last entity
of its name; the bodies to the entities one by one; the imports to the bodies.  An attempt to
finalize changes none of this and leaves the session open if it fails; if it has succeeded, no
further calls change anything, the output stays and entities are refused. -/
theorem stores_in_step [Limits] (config : Configuration) (scalars : Option (List String))
    (requests : List Request) :
    let stores := (Stores.start scalars).served config requests
    ((Session.start config scalars).served requests).stores = stores ∧
    stores.registry.objects.keys = firstOccurrences (stores.registry.models.map (·.name)) ∧
    (∀ m slot, IsLast stores.registry.models slot m →
      stores.registry.objects.get? m.name = some slot ∧
      ∃ e, stores.registry.slots[slot]? = some e ∧ e.model = m ∧
        ∀ fields, e.fields = some fields →
          ∃ old : Registry, old.Precedes stores.registry ∧ modelFields old m = .ok fields) ∧
    stores.registry.models.mapM (Handlers.render config) = .ok stores.bodies ∧
    stores.imports = stores.bodies.flatMap (·.imports) ∧
    (∀ failure later, (Stores.finalize config).on stores = (.error failure, later) →
      stores.Same later ∧ later.output = none) ∧
    (∀ output finalized, (Stores.finalize config).on stores = (.ok output, finalized) →
      stores.Same finalized ∧ ∀ more,
        finalized.served config more = finalized ∧
        (Stores.finalize config).on finalized = (.ok output, finalized) ∧
        ∀ m, (Stores.add config m).on finalized =
          (.error (.sessionFinalized m.name), finalized)) := by
  intro stores
  have hStep := Stores.inStep_served config scalars requests
  obtain ⟨hKeys, hObjects⟩ := hStep.objects
  obtain ⟨hSame, hOutput⟩ := Stores.finalize_keeps config stores
  refine ⟨(Session.stores_served (Session.start config scalars) requests).1, hKeys, hObjects,
    hStep.bodies, hStep.imports, fun failure later h => ?_, fun output finalized h => ?_⟩
  · rw [h] at hSame hOutput
    exact ⟨hSame, hOutput⟩
  · rw [h] at hSame hOutput
    exact ⟨hSame, fun more => ⟨Stores.served_finalized config hOutput more,
      Stores.finalize_done config hOutput, Stores.add_finalized config hOutput⟩⟩

/-- An entity whose reference is unknown at the first attempt to finalize, then the entity referred
to, twice, and between them one that is refused. -/
def shelfFirst : List Request :=
  [.add shelfModel, .finalize, .add bookModel, .addAll [misvalidatedModel], .add bookModel]

/-- The name of the entity that was added twice leads to its second object type; the next attempt
succeeds, and then entities are refused. -/
theorem shelfFirst_in_step :
    let config : Configuration := { formatSource := false }
    let stores := (Stores.start none).served config shelfFirst
    stores.registry.models = [shelfModel, bookModel, bookModel] ∧
    stores.registry.objects.keys = ["Shelf", "Book"] ∧
    stores.registry.objects.get? "Book" = some 2 ∧
    ∃ output finalized, (Stores.finalize config).on stores = (.ok output, finalized) ∧
      stores.Same finalized ∧
      (Stores.add config shelfModel).on finalized =
        (.error (.sessionFinalized "Shelf"), finalized) := by
  intro config stores
  obtain ⟨-, hKeys, hObjects, -, -, -, hDone⟩ := stores_in_step config none shelfFirst
  have hModels : stores.registry.models = [shelfModel, bookModel, bookModel] := by rfl
  have hLast : IsLast stores.registry.models 2 bookModel := by
    rw [hModels]
    refine ⟨rfl, fun later m hLater hThere => ?_⟩
    have hBound := (List.getElem?_eq_some_iff.mp hThere).1
    simp only [List.length_cons, List.length_nil] at hBound
    omega
  have hKeys : stores.registry.objects.keys = _ := hKeys
  rw [hModels] at hKeys
  refine ⟨hModels, hKeys, (hObjects _ _ hLast).1, ?_⟩
  have hBuilt : ((Stores.finalize config).on stores).1.isOk = true := by decide +kernel
  rcases hFinalize : (Stores.finalize config).on stores with ⟨failure | output, finalized⟩
  · rw [hFinalize] at hBuilt
    cases hBuilt
  · obtain ⟨hSame, hLater⟩ := hDone output finalized hFinalize
    exact ⟨output, finalized, rfl, hSame, (hLater []).2.2 shelfModel⟩

end EntityGraph
