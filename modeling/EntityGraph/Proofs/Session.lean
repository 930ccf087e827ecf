import EntityGraph.Proofs.Schema.Redefinition
import EntityGraph.Session

/-!
# Sessions and the attempts before their end

A session may be finalized several times until it succeeds, with more entities added in between.  An
attempt that fails leaves nothing but the fields that the registry has kept.

* `Session.Call`, `Session.after`: calls and what they leave;
* `Session.Trail`: an open session is a new one with the same entities and some fields kept;
* `Session.after_trail`: this holds after any calls as long as the session is open;
* `outcome_after_attempts`: what the next attempt gives.
-/

namespace EntityGraph

open Outcome

section

variable [Limits]

namespace Session

/-- A call: an entity to add, or an attempt to finalize. -/
inductive Call where
  | add (m : Model)
  | finalize

/-- What one call leaves. -/
def perform (s : Session) : Call → Session
  | .add m =>
    match (s.add m).value with
    | .ok s' => s'
    | .error _ => s
  | .finalize => s.finalize.value.1

/-- What calls leave. -/
def after (s : Session) (calls : List Call) : Session := calls.foldl perform s

theorem after_concat (s : Session) (calls : List Call) (call : Call) :
    s.after (calls ++ [call]) = (s.after calls).perform call :=
  List.foldl_concat ..

/-- An addition that succeeds registers the entity and adds its handlers. -/
theorem add_eq_ok {s s' : Session} {m : Model} :
    (s.add m).value = .ok s' ↔ s.isFinalized = false ∧
      ∃ piece registry, Handlers.render s.config m = .ok piece ∧
        (Schema.addModel s.registry m).value = .ok registry ∧
        s' = { s with
          registry
          module := { s.module with pieces := s.module.pieces ++ [piece] } } := by
  unfold add
  cases s.isFinalized with
  | true => simp
  | false =>
    simp only [Bool.false_eq_true, if_false, true_and]
    cases hPiece : Handlers.render s.config m with
    | error failure => simp
    | ok piece =>
      simp only [Logged.value_bind]
      cases hAdd : (Schema.addModel s.registry m).value with
      | error failure => simp
      | ok registry =>
        simp [Handlers.Module.push, eq_comm]

/-- Additions one after another. -/
theorem addAll_append {s s' : Session} {ms : List Model} (h : (s.addAll ms).value = (s', .ok ()))
    (ms' : List Model) : (s.addAll (ms ++ ms')).value = (s'.addAll ms').value := by
  induction ms generalizing s with
  | nil =>
    obtain ⟨rfl, -⟩ := Prod.mk.inj h
    rfl
  | cons m ms ih =>
    rw [List.cons_append, addAll]
    rw [addAll] at h
    simp only [Logged.value_bind] at h ⊢
    cases hAdd : (s.add m).value with
    | error failure =>
      rw [hAdd] at h
      cases (Prod.mk.inj h).2
    | ok next =>
      rw [hAdd] at h
      exact ih h

/-- A session that additions and failed attempts to finalize it have left. -/
structure Trail (config : Configuration) (scalars : Option (List String)) (s : Session) : Prop where
  isOpen : s.output = none
  settings : s.config = config
  registry : Schema.Trail (scalars.getD Schema.defaultScalars) s.models s.registry
  fresh : ((start config scalars).addAll s.models).value =
    ({ s with registry := s.registry.forget }, .ok ())

namespace Trail

variable {config : Configuration} {scalars : Option (List String)} {s : Session}

theorem start (config : Configuration) (scalars : Option (List String)) :
    Trail config scalars (start config scalars) :=
  ⟨rfl, rfl, .start _, rfl⟩

theorem add (h : Trail config scalars s) {s' : Session} {m : Model}
    (hAdd : (s.add m).value = .ok s') : Trail config scalars s' := by
  obtain ⟨-, piece, registry, hPiece, hRegister, rfl⟩ := add_eq_ok.mp hAdd
  have hModels : registry.models = s.models ++ [m] := by
    obtain ⟨-, rfl⟩ := Schema.addModel_eq_ok.mp hRegister
    rfl
  refine ⟨h.isOpen, h.settings, ?_, ?_⟩
  · rw [models, hModels]
    exact h.registry.add hRegister
  · rw [models, hModels, addAll_append h.fresh [m], addAll]
    have hAgain : (({ s with registry := s.registry.forget } : Session).add m).value =
        .ok { s with
          registry := registry.forget
          module := { s.module with pieces := s.module.pieces ++ [piece] } } := by
      refine add_eq_ok.mpr ⟨by simp [isFinalized, h.isOpen], piece, _, hPiece, ?_, rfl⟩
      exact Schema.Registry.addModel_forget hRegister
    simp only [Logged.value_bind, hAgain]
    rfl

end Trail

omit [Limits] in
/-- An attempt to build a schema leaves the entities alone. -/
theorem build_models (r : Schema.Registry) : (Schema.build r).value.1.models = r.models :=
  congrArg (·.models) (Schema.forget_build r)

/-- What an open session gives when it is finalized, and what it becomes. -/
theorem finalize_value {s : Session} (h : s.output = none) :
    s.finalize.value =
      match (Schema.build s.registry).value.2 with
      | .error failure => ({ s with registry := (Schema.build s.registry).value.1 }, .error failure)
      | .ok schema =>
        match (s.outputOf schema).value with
        | .error failure =>
          ({ s with registry := (Schema.build s.registry).value.1 }, .error failure)
        | .ok (module, output) =>
          ({ s with
              registry := (Schema.build s.registry).value.1
              module
              output := some output }, .ok output) := by
  obtain ⟨config, before, module, output⟩ := s
  obtain rfl : output = none := h
  simp only [finalize, Logged.value_bind]
  rcases hBuild : (Schema.build before).value with ⟨registry, built⟩
  have hModels : registry.models = before.models := by
    rw [← build_models before, hBuild]
  cases built with
  | error failure => rfl
  | ok schema =>
    have hSame : outputOf ⟨config, registry, module, none⟩ schema =
        outputOf ⟨config, before, module, none⟩ schema := by
      simp only [outputOf, models, hModels]
    simp only [Logged.value_bind, hSame]
    cases (outputOf ⟨config, before, module, none⟩ schema).value <;> rfl

/-- An attempt that fails only keeps fields. -/
theorem Trail.finalize {config : Configuration} {scalars : Option (List String)} {s : Session}
    (h : Trail config scalars s) (hOpen : s.finalize.value.1.output = none) :
    Trail config scalars s.finalize.value.1 := by
  have hFailed : s.finalize.value.1 =
      { s with registry := (Schema.build s.registry).value.1 } := by
    rw [finalize_value h.isOpen] at hOpen ⊢
    cases hBuild : (Schema.build s.registry).value.2 with
    | error failure => rfl
    | ok schema =>
      rw [hBuild] at hOpen
      cases hOutput : (s.outputOf schema).value with
      | error failure => simp only [hOutput]
      | ok result =>
        simp only [hOutput] at hOpen
        cases hOpen
  have hModels := build_models s.registry
  rw [hFailed]
  refine ⟨h.isOpen, h.settings, ?_, ?_⟩
  · rw [models, hModels]
    exact h.registry.create
  · rw [models, hModels]
    refine h.fresh.trans ?_
    simp only [Schema.forget_build]

/-- A call on a session that has been finalized changes nothing. -/
theorem perform_finalized {s : Session} (h : s.output ≠ none) (call : Call) :
    s.perform call = s := by
  obtain ⟨output, hOutput⟩ := Option.ne_none_iff_exists'.mp h
  cases call with
  | add m => simp [perform, Session.add, isFinalized, hOutput]
  | finalize => simp [perform, finalize, hOutput]

/-- A call preserves the trail of a session that stays open. -/
theorem Trail.perform {config : Configuration} {scalars : Option (List String)} {s : Session}
    (h : Trail config scalars s) (call : Call) (hOpen : (s.perform call).output = none) :
    Trail config scalars (s.perform call) := by
  cases call with
  | add m =>
    rw [Session.perform]
    cases hAdd : (s.add m).value with
    | error failure => exact h
    | ok s' => exact h.add hAdd
  | finalize => exact h.finalize hOpen

/-- As long as a session is open, it is a new one with the same entities and some fields kept. -/
theorem after_trail (config : Configuration) (scalars : Option (List String)) (calls : List Call)
    (hOpen : ((start config scalars).after calls).output = none) :
    Trail config scalars ((start config scalars).after calls) := by
  induction calls using List.reverseRecOn with
  | nil => exact .start config scalars
  | append_singleton calls call ih =>
    rw [after_concat] at hOpen ⊢
    by_cases hBefore : ((start config scalars).after calls).output = none
    · exact (ih hBefore).perform call hOpen
    · rw [perform_finalized hBefore] at hOpen
      exact absurd hOpen hBefore

/-- Up to date, an open session gives what a new one gives for its entities. -/
theorem Trail.finalize_eq {config : Configuration} {scalars : Option (List String)} {s : Session}
    (h : Trail config scalars s) (hDate : ¬ s.registry.Outdated) :
    s.finalize.value.2 = (compile config scalars s.models).value := by
  have hBuild := Schema.build_forget h.registry.coherent hDate
  let forgotten : Session := { s with registry := s.registry.forget }
  have hOpen : forgotten.output = none := h.isOpen
  have hOutput : ∀ schema, forgotten.outputOf schema = s.outputOf schema := fun _ => rfl
  unfold compile
  simp only [Logged.value_bind, h.fresh]
  rw [finalize_value h.isOpen, finalize_value hOpen, hBuild]
  cases (Schema.build s.registry).value.2 with
  | error failure => rfl
  | ok schema =>
    simp only [hOutput]
    cases (s.outputOf schema).value <;> rfl

/-- Out of date, a session cannot be finalized. -/
theorem Trail.finalize_fails {config : Configuration} {scalars : Option (List String)} {s : Session}
    (h : Trail config scalars s) (hOutdated : s.registry.Outdated) :
    ∃ failure, s.finalize.value.2 = .error failure := by
  obtain ⟨failure, hBuild⟩ := hOutdated.build_fails h.registry.coherent
  refine ⟨failure, ?_⟩
  rw [finalize_value h.isOpen, hBuild]

/-! ## The registry of a session -/

/-- What calls on a session ask of its registry. -/
def trace (s : Session) : List Call → List Schema.Call
  | [] => []
  | .add m :: calls =>
    match (s.add m).value with
    | .ok s' => .add m :: s'.trace calls
    | .error _ => s.trace calls
  | .finalize :: calls =>
    if s.isFinalized then s.trace calls else .create :: s.finalize.value.1.trace calls

theorem finalize_registry {s : Session} (h : s.output = none) :
    s.finalize.value.1.registry = (Schema.build s.registry).value.1 := by
  rw [finalize_value h]
  cases (Schema.build s.registry).value.2 with
  | error failure => rfl
  | ok schema => cases hOutput : (s.outputOf schema).value <;> simp only [hOutput]

theorem after_registry (s : Session) (calls : List Call) :
    (s.after calls).registry = Schema.after s.registry (s.trace calls) := by
  induction calls generalizing s with
  | nil => rfl
  | cons call calls ih =>
    rw [after, List.foldl_cons, ← after]
    cases call with
    | add m =>
      rw [perform, trace]
      cases hAdd : (s.add m).value with
      | error failure => exact ih s
      | ok s' =>
        obtain ⟨-, piece, registry, -, hRegister, rfl⟩ := add_eq_ok.mp hAdd
        refine (ih _).trans ?_
        simp only [Schema.after, List.foldl_cons, Schema.perform, hRegister]
    | finalize =>
      rw [perform, trace]
      cases hOutput : s.output with
      | some output =>
        have hSame : s.finalize.value.1 = s := by simp [finalize, hOutput]
        simp only [isFinalized, hOutput, Option.isSome_some, if_true, hSame]
        exact ih s
      | none =>
        simp only [isFinalized, hOutput, Option.isSome_none, Bool.false_eq_true, if_false]
        refine (ih _).trans ?_
        simp only [Schema.after, List.foldl_cons, Schema.perform, finalize_registry hOutput]

end Session

/-! ## What the next attempt gives -/

/-- After any calls, an attempt to build a schema gives what a new registry gives for the entities
registered, unless a registered object type keeps a field of a type that has been replaced; then it
fails.  For entities that were read, this is so exactly if the calls have registered the type of a
field again after an attempt had worked the field out.  The same holds of an attempt to finalize a
session that is still open, compared with the compilation of its entities. -/
theorem outcome_after_attempts (scalars : List String) (calls : List Schema.Call)
    (config : Configuration) (base : Option (List String)) (sessionCalls : List Session.Call) :
    (∃ fresh, Schema.register { scalars } (Schema.accepted { scalars } calls) = .ok fresh ∧
      (¬ (Schema.after { scalars } calls).Outdated →
        (Schema.build (Schema.after { scalars } calls)).value.2 = (Schema.build fresh).value.2) ∧
      ((Schema.after { scalars } calls).Outdated →
        ∃ failure, (Schema.build (Schema.after { scalars } calls)).value.2 = .error failure) ∧
      ((∀ m ∈ Schema.accepted { scalars } calls, ∃ v, Input.model.read v = .ok m) →
        ((Schema.after { scalars } calls).Outdated ↔ Schema.Redefined scalars calls))) ∧
    (((Session.start config base).after sessionCalls).output = none →
      (¬ ((Session.start config base).after sessionCalls).registry.Outdated →
        ((Session.start config base).after sessionCalls).finalize.value.2 =
          (compile config base ((Session.start config base).after sessionCalls).models).value) ∧
      (((Session.start config base).after sessionCalls).registry.Outdated →
        ∃ failure,
          ((Session.start config base).after sessionCalls).finalize.value.2 = .error failure) ∧
      ((∀ m ∈ ((Session.start config base).after sessionCalls).models,
          ∃ v, Input.model.read v = .ok m) →
        (((Session.start config base).after sessionCalls).registry.Outdated ↔
          Schema.Redefined (base.getD Schema.defaultScalars)
            ((Session.start config base).trace sessionCalls)))) := by
  have hTrail := Schema.after_trail scalars calls
  refine ⟨⟨_, hTrail.fresh, fun hDate => ?_, fun hOutdated => ?_, fun hRead => ?_⟩, fun hOpen => ?_⟩
  · exact (Schema.build_forget hTrail.coherent hDate).symm
  · exact hOutdated.build_fails hTrail.coherent
  · exact Schema.outdated_iff fun m hm => (hRead m hm).elim fun v hv => Model.wellFormed_of_read hv
  · have hSession := Session.after_trail config base sessionCalls hOpen
    refine ⟨hSession.finalize_eq, hSession.finalize_fails, fun hRead => ?_⟩
    have hRegistry := Session.after_registry (Session.start config base) sessionCalls
    have hCalls := Schema.after_trail (base.getD Schema.defaultScalars)
      ((Session.start config base).trace sessionCalls)
    have hModels : ((Session.start config base).after sessionCalls).models =
        Schema.accepted { scalars := base.getD Schema.defaultScalars }
          ((Session.start config base).trace sessionCalls) := by
      rw [Session.models, hRegistry]
      exact hCalls.models_eq
    rw [hRegistry]
    refine Schema.outdated_iff fun m hm => ?_
    obtain ⟨v, hv⟩ := hRead m (hModels ▸ hm)
    exact Model.wellFormed_of_read hv

end

/-- An entity with a relationship to another one. -/
def shelfModel : Model := ⟨"Shelf", [], [⟨"book", "Book", false, true⟩], []⟩

/-- The entity that it refers to. -/
def bookModel : Model := ⟨"Book", [], [], []⟩

/-- A value that reads as the first entity. -/
def shelfValue : Value :=
  Value.record [("name", .text "Shelf"), ("properties", .list []),
    ("relationships", .list [Value.record [("name", .text "book"), ("type", .text "Book")]])]

/-- A value that reads as the second entity. -/
def bookValue : Value := Value.record [("name", .text "Book"), ("properties", .list [])]

/-- The second entity is registered again after a schema has been built. -/
def bookAgain : List Schema.Call := [.add shelfModel, .add bookModel, .create, .add bookModel]

/-- What these registrations alone lead to. -/
def bookAgainRegistry : Schema.Registry :=
  { slots := [{ model := shelfModel }, { model := bookModel }, { model := bookModel }]
    objects := [("Shelf", 0), ("Book", 2)]
    models := [shelfModel, bookModel, bookModel] }

/-- The next attempt fails, although a new registry has a schema for the same entities. -/
theorem create_fails_bookAgain :
    (∃ failure, (Schema.build (Schema.after {} bookAgain)).value.2 = .error failure) ∧
      Schema.register {} (Schema.accepted {} bookAgain) = .ok bookAgainRegistry ∧
      ∃ schema, (Schema.build bookAgainRegistry).value.2 = .ok schema := by
  obtain ⟨⟨_, -, -, hFails, hIff⟩, -⟩ :=
    outcome_after_attempts Schema.defaultScalars bookAgain {} none []
  have hAccepted : Schema.accepted {} bookAgain = [shelfModel, bookModel, bookModel] := by rfl
  have hRead : ∀ m ∈ Schema.accepted {} bookAgain, ∃ v, Input.model.read v = .ok m := by
    intro m hm
    rw [hAccepted] at hm
    rcases List.mem_cons.mp hm with rfl | hm
    · exact ⟨shelfValue, by rfl⟩
    · obtain rfl : m = bookModel := by simpa using hm
      exact ⟨bookValue, by rfl⟩
  have hLast : Schema.IsLast (Schema.accepted {} bookAgain) 0 shelfModel := by
    rw [hAccepted]
    refine ⟨rfl, fun later m' hLater hThere => ?_⟩
    obtain ⟨later, rfl⟩ := Nat.exists_eq_succ_of_ne_zero (by omega : later ≠ 0)
    have hMem : m' ∈ [bookModel, bookModel] := List.mem_of_getElem? (i := later) hThere
    obtain rfl : m' = bookModel := by simpa using hMem
    decide +kernel
  have hRedefined : Schema.Redefined Schema.defaultScalars bookAgain :=
    ⟨[.add shelfModel, .add bookModel], [.add bookModel], rfl, ⟨_, by rfl⟩, 0, shelfModel,
      by decide +kernel, hLast, ("book", ⟨"book", "Book", false, true⟩), .tail _ (.head _),
      by decide +kernel, bookModel, .head _, rfl⟩
  have hBuilt : (Schema.build bookAgainRegistry).value.2.isOk = true := by decide +kernel
  refine ⟨hFails ((hIff hRead).mpr hRedefined), by rfl, ?_⟩
  cases hBuild : (Schema.build bookAgainRegistry).value.2 with
  | error failure =>
    rw [hBuild] at hBuilt
    cases hBuilt
  | ok schema => exact ⟨schema, rfl⟩

end EntityGraph
