import EntityGraph.Proofs.Session

/-!
# Sessions store by store

A session keeps what it has taken in several stores: the registry with its entities and its object
types, the imports of the handler module, and the bodies.  Here each of them is written in place by a
step of its own.  A failure ends the steps where it occurs and leaves the stores as they are by then,
so nothing but the order of the steps keeps a refused entity out of them.

* `Stores`, `Procedure`: the stores, and steps on them;
* `Stores.add`, `Stores.addAll`, `Stores.finalize`: the calls of a session step by step;
* `Stores.add_run`: what an addition does to the stores, whatever comes of it;
* `Request`, `Stores.served`: calls from outside, one after another, whatever comes of them;
* `Session.stores`, `Session.stores_served`: the stores of a session, which its calls change in this
  way;
* `refused_without_trace`: an addition that fails leaves the stores alone.
-/

namespace EntityGraph

/-- What a session has taken in and, once it is finalized, what it gave. -/
structure Stores where
  registry : Schema.Registry
  imports : List Handlers.Import := []
  bodies : List Handlers.Piece := []
  output : Option Output := none

/-- Steps on the stores that may fail; what has been written before a failure stays. -/
abbrev Procedure (α : Type) := ExceptT Failure (StateM Stores) α

namespace Procedure

variable {α β : Type}

/-- The outcome of some steps and the stores after them. -/
def on (p : Procedure α) (s : Stores) : Except Failure α × Stores := StateT.run (ExceptT.run p) s

/-- A step that looks at the stores. -/
def look (f : Stores → Except Failure α) : Procedure α := ExceptT.mk fun s => (f s, s)

/-- A step that writes to the stores. -/
def write (f : Stores → Stores) : Procedure Unit := modify f

@[simp] theorem on_pure (a : α) (s : Stores) : (pure a : Procedure α).on s = (.ok a, s) := rfl

@[simp] theorem on_look (f : Stores → Except Failure α) (s : Stores) : (look f).on s = (f s, s) := rfl

@[simp] theorem on_write (f : Stores → Stores) (s : Stores) : (write f).on s = (.ok (), f s) := rfl

@[simp] theorem on_bind (p : Procedure α) (f : α → Procedure β) (s : Stores) :
    (p >>= f).on s =
      match p.on s with
      | (.ok a, s') => (f a).on s'
      | (.error failure, s') => (.error failure, s') := by
  unfold on
  rw [ExceptT.run_bind, StateT.run_bind]
  rcases StateT.run (ExceptT.run p) s with ⟨failure | a, s'⟩ <;> rfl

end Procedure

namespace Stores

open Procedure

/-- The stores of a new session. -/
def start (scalars : Option (List String)) : Stores :=
  { registry := { scalars := scalars.getD Schema.defaultScalars } }

/-! ## The calls, step by step -/

/-- The types of properties looked up one after another. -/
def resolveAll : List Property → Procedure Unit
  | [] => pure ()
  | p :: ps => do
    let _ ← look fun s => s.registry.resolve p.type p.list p.required
    resolveAll ps

/-- An entity registered with its object type. -/
def register (m : Model) : Procedure Unit := do
  resolveAll m.properties
  look fun _ => Schema.checkTypeName m.name
  write fun s => { s with registry := s.registry.addModel m }
  write fun s => { s with registry := s.registry.insertObject m }

/-- The handlers of an entity committed. -/
def commit (piece : Handlers.Piece) : Procedure Unit := do
  write fun s => { s with imports := s.imports ++ piece.imports }
  write fun s => { s with bodies := s.bodies ++ [piece] }

def checkOpen (m : Model) (s : Stores) : Except Failure Unit :=
  if s.output.isSome then .error (.sessionFinalized m.name) else .ok ()

/-- One more entity. -/
def add [Limits] (config : Configuration) (m : Model) : Procedure Unit := do
  look (checkOpen m)
  let piece ← look fun _ => Handlers.render config m
  register m
  commit piece

/-- Several more entities, up to the first that is refused. -/
def addAll [Limits] (config : Configuration) : List Model → Procedure Unit
  | [] => pure ()
  | m :: ms => do
    add config m
    addAll config ms

/-- The text of the handler module made of the imports and the bodies. -/
def source [Limits] (config : Configuration) (s : Stores) : Except Failure String :=
  let imports := Handlers.distinctImports s.imports
  if config.formatSource then
    if !s.bodies.all Handlers.Piece.isWellFormed then .error .malformedSource
    else if !s.bodies.all Handlers.Piece.isShallow then .error .nestedTooDeep
    else
      .ok ("\n".intercalate (Handlers.wrappedLines config.lineLength.toNat Handlers.libraryPath
        Handlers.libraryNames imports s.bodies) ++ "\n")
  else
    .ok ("\n".intercalate (Handlers.libraryLine :: "" :: imports.map Handlers.Import.line) ++
      "\n\n\n" ++ "\n\n\n".intercalate (s.bodies.map Handlers.Piece.body) ++ "\n")

/-- The schema of the registry, which keeps the fields of the types reached in any case. -/
def build : Procedure Schema := do
  let (registry, built) ← look fun s => .ok (Schema.build s.registry).value
  write fun s => { s with registry }
  look fun _ => built

/-- The output, made of the stores unless it was made before. -/
def finalize [Limits] (config : Configuration) : Procedure Output := do
  match ← look fun s => .ok s.output with
  | some output => return output
  | none =>
    let schema ← build
    let document ← look fun s => Document.ofModels s.registry.models
    let source ← look (source config)
    let output : Output := ⟨schema, document, source⟩
    write fun s => { s with output := some output }
    return output

/-! ## What a call does -/

/-- The types of properties are looked up without a write. -/
theorem resolveAll_run (m : Model) (s : Stores) :
    (resolveAll m.properties).on s = (Schema.checkProperties s.registry m, s) := by
  unfold Schema.checkProperties
  generalize m.properties = ps
  induction ps with
  | nil => rfl
  | cons p ps ih =>
    simp only [resolveAll, on_bind, on_look, List.forIn_cons]
    cases s.registry.resolve p.type p.list p.required with
    | error failure => rfl
    | ok type => exact ih

/-- A registration fails before its first write. -/
theorem register_run (m : Model) (s : Stores) :
    (register m).on s =
      match Schema.checkModel s.registry m with
      | .error failure => (.error failure, s)
      | .ok () => (.ok (), { s with registry := (s.registry.addModel m).insertObject m }) := by
  simp only [register, on_bind, on_look, on_write, resolveAll_run, Schema.checkModel]
  cases Schema.checkProperties s.registry m with
  | error failure => rfl
  | ok _ => cases Schema.checkTypeName m.name <;> rfl

/-- The stores with an entity and its handlers. -/
def withModel (s : Stores) (m : Model) (piece : Handlers.Piece) : Stores :=
  { s with
    registry := (s.registry.addModel m).insertObject m
    imports := s.imports ++ piece.imports
    bodies := s.bodies ++ [piece] }

/-- All that an addition checks, in order: it gives the handlers of the entity. -/
def check [Limits] (config : Configuration) (m : Model) (s : Stores) :
    Except Failure Handlers.Piece := do
  checkOpen m s
  let piece ← Handlers.render config m
  Schema.checkModel s.registry m
  return piece

/-- An addition fails before its first write, or it writes to every store. -/
theorem add_run [Limits] (config : Configuration) (m : Model) (s : Stores) :
    (add config m).on s =
      match s.check config m with
      | .error failure => (.error failure, s)
      | .ok piece => (.ok (), s.withModel m piece) := by
  simp only [add, commit, on_bind, on_look, on_write, register_run, check]
  cases checkOpen m s with
  | error failure => rfl
  | ok _ =>
    cases Handlers.render config m with
    | error failure => rfl
    | ok piece =>
      simp only
      cases Schema.checkModel s.registry m <;> rfl

/-- The output that the stores give with a schema. -/
def outputOf [Limits] (config : Configuration) (schema : Schema) (s : Stores) :
    Except Failure Output := do
  let document ← Document.ofModels s.registry.models
  return ⟨schema, document, ← s.source config⟩

/-- The stores after an attempt to build a schema. -/
def afterBuild (s : Stores) : Stores := { s with registry := (Schema.build s.registry).value.1 }

/-- An attempt to build a schema makes no difference to the rest of an output. -/
theorem outputOf_afterBuild [Limits] (config : Configuration) (schema : Schema) (s : Stores) :
    s.afterBuild.outputOf config schema = s.outputOf config schema := by
  simp only [outputOf, afterBuild, Session.build_models]
  rfl

/-- An attempt to finalize writes to the registry first, whatever comes of it. -/
theorem finalize_run [Limits] (config : Configuration) {s : Stores} (hOpen : s.output = none) :
    (finalize config).on s =
      match (Schema.build s.registry).value.2.bind fun schema => s.outputOf config schema with
      | .error failure => (.error failure, s.afterBuild)
      | .ok output => (.ok output, { s.afterBuild with output := some output }) := by
  obtain ⟨registry, imports, bodies, output⟩ := s
  obtain rfl : output = none := hOpen
  simp only [finalize, build, on_bind, on_look, on_write]
  cases (Schema.build registry).value.2 with
  | error failure => rfl
  | ok schema =>
    simp only [Except.bind]
    rw [← outputOf_afterBuild]
    simp only [outputOf, afterBuild]
    cases Document.ofModels (Schema.build registry).value.1.models with
    | error failure => rfl
    | ok document =>
      simp only
      cases source config _ <;> rfl

theorem finalize_done [Limits] (config : Configuration) {s : Stores} {output : Output}
    (hDone : s.output = some output) : (finalize config).on s = (.ok output, s) := by
  simp [finalize, hDone]

end Stores

/-! ## The stores of a session -/

namespace Session

variable [Limits]

def stores (s : Session) : Stores := ⟨s.registry, s.module.imports, s.module.pieces, s.output⟩

/-- The text of the module is that of the imports and the bodies. -/
theorem source_stores (s : Session) (config : Configuration) :
    s.stores.source config = s.module.source config := rfl

/-- What an addition gives. -/
theorem add_value (s : Session) (m : Model) :
    (s.add m).value = (s.stores.check s.config m).map fun piece =>
      { s with
        registry := (s.registry.addModel m).insertObject m
        module := { s.module with pieces := s.module.pieces ++ [piece] } } := by
  unfold add Stores.check Stores.checkOpen isFinalized stores
  cases s.output with
  | some output => rfl
  | none =>
    cases Handlers.render s.config m with
    | error failure => rfl
    | ok piece =>
      simp only [Schema.addModel]
      cases Schema.checkModel s.registry m <;> rfl

/-- An addition to a session is one to its stores. -/
theorem add_stores (s : Session) (m : Model) :
    (Stores.add s.config m).on s.stores =
      match (s.add m).value with
      | .error failure => (.error failure, s.stores)
      | .ok s' => (.ok (), s'.stores) := by
  rw [Stores.add_run, add_value]
  cases s.stores.check s.config m with
  | error failure => rfl
  | ok piece => simp [Except.map, stores, Stores.withModel, Handlers.Module.imports]

theorem add_config {s s' : Session} {m : Model} (h : (s.add m).value = .ok s') :
    s'.config = s.config := by
  obtain ⟨-, _, _, -, -, rfl⟩ := add_eq_ok.mp h
  rfl

/-- Several additions to a session are those to its stores. -/
theorem addAll_stores (s : Session) (ms : List Model) :
    (Stores.addAll s.config ms).on s.stores =
      ((s.addAll ms).value.2, (s.addAll ms).value.1.stores) ∧
    (s.addAll ms).value.1.config = s.config := by
  induction ms generalizing s with
  | nil => exact ⟨rfl, rfl⟩
  | cons m ms ih =>
    simp only [Stores.addAll, Procedure.on_bind, add_stores, addAll, Logged.value_bind]
    cases hAdd : (s.add m).value with
    | error failure => exact ⟨rfl, rfl⟩
    | ok next =>
      have hConfig := add_config hAdd
      exact hConfig ▸ ih next

/-- The output of a session is made of its stores. -/
theorem outputOf_value (s : Session) (schema : Schema) :
    (s.outputOf schema).value = (s.stores.outputOf s.config schema).map fun output =>
      ({ s.module with output := output.source }, output) := by
  have hModels : s.stores.registry.models = s.models := rfl
  rw [Stores.outputOf, source_stores, hModels]
  simp only [outputOf, Document.build, Handlers.Module.create]
  cases Document.ofModels s.models with
  | error failure => rfl
  | ok document => cases s.module.source s.config <;> rfl

/-- An attempt to finalize a session is one on its stores. -/
theorem finalize_stores (s : Session) :
    (Stores.finalize s.config).on s.stores = (s.finalize.value.2, s.finalize.value.1.stores) ∧
    s.finalize.value.1.config = s.config := by
  cases hOutput : s.output with
  | some output =>
    have hDone : s.finalize.value = (s, .ok output) := by simp [finalize, hOutput]
    rw [hDone]
    exact ⟨Stores.finalize_done s.config hOutput, rfl⟩
  | none =>
    rw [Stores.finalize_run s.config hOutput, finalize_value hOutput]
    simp only [outputOf_value]
    obtain ⟨config, registry, module, output⟩ := s
    obtain rfl : output = none := hOutput
    simp only [stores]
    cases (Schema.build registry).value.2 with
    | error failure => exact ⟨rfl, rfl⟩
    | ok schema =>
      simp only [Except.bind]
      cases Stores.outputOf config schema _ <;> exact ⟨rfl, rfl⟩

end Session

/-! ## Calls from outside -/

/-- A call on a session. -/
inductive Request where
  | add (m : Model)
  | addAll (ms : List Model)
  | finalize

namespace Stores

variable [Limits]

/-- The stores after a call, whatever comes of it. -/
def serve (config : Configuration) (s : Stores) : Request → Stores
  | .add m => ((add config m).on s).2
  | .addAll ms => ((addAll config ms).on s).2
  | .finalize => ((finalize config).on s).2

/-- The stores after calls in order, whatever comes of them. -/
def served (config : Configuration) (s : Stores) (requests : List Request) : Stores :=
  requests.foldl (serve config) s

/-- The entities that single additions take in. -/
def accepted (config : Configuration) (s : Stores) : List Model → List Model
  | [] => []
  | m :: ms =>
    match (add config m).on s with
    | (.ok (), next) => m :: next.accepted config ms
    | (.error _, next) => next.accepted config ms

theorem accepted_sublist (config : Configuration) (s : Stores) (ms : List Model) :
    (s.accepted config ms).Sublist ms := by
  induction ms generalizing s with
  | nil => exact .slnil
  | cons m ms ih =>
    rw [accepted]
    rcases (add config m).on s with ⟨_ | _, next⟩
    · exact (ih next).cons m
    · exact (ih next).cons_cons m

/-- An addition that fails leaves the stores alone. -/
theorem add_refused {config : Configuration} {m : Model} {s : Stores} {failure : Failure}
    (h : ((add config m).on s).1 = .error failure) : ((add config m).on s).2 = s := by
  rw [add_run] at h ⊢
  cases hCheck : s.check config m with
  | error _ => rfl
  | ok piece =>
    rw [hCheck] at h
    cases h

/-- The entities taken in alone make the same stores, and all of them are taken in again. -/
theorem addAll_accepted (config : Configuration) (s : Stores) (ms : List Model) :
    (addAll config (s.accepted config ms)).on s = (.ok (), s.served config (ms.map .add)) ∧
    s.served config ((s.accepted config ms).map .add) = s.served config (ms.map .add) := by
  induction ms generalizing s with
  | nil => exact ⟨rfl, rfl⟩
  | cons m ms ih =>
    rw [accepted, List.map_cons, served, List.foldl_cons, ← served, serve]
    rcases hAdd : (add config m).on s with ⟨failure | _, next⟩
    · have hSame : next = s := by
        have hKept := add_refused (congrArg Prod.fst hAdd)
        rwa [hAdd] at hKept
      exact hSame ▸ ih next
    · refine ⟨?_, ?_⟩
      · rw [addAll, Procedure.on_bind, hAdd]
        exact (ih next).1
      · rw [List.map_cons, served, List.foldl_cons, ← served, serve, hAdd]
        exact (ih next).2

end Stores

namespace Session

variable [Limits]

/-- A session after a call, whatever comes of it. -/
def serve (s : Session) : Request → Session
  | .add m => s.perform (.add m)
  | .addAll ms => (s.addAll ms).value.1
  | .finalize => s.perform .finalize

/-- A session after calls in order, whatever comes of them. -/
def served (s : Session) (requests : List Request) : Session := requests.foldl serve s

/-- A call on a session is one on its stores. -/
theorem stores_serve (s : Session) (request : Request) :
    (s.serve request).stores = s.stores.serve s.config request ∧
    (s.serve request).config = s.config := by
  cases request with
  | add m =>
    rw [serve, perform, Stores.serve, add_stores]
    cases hAdd : (s.add m).value with
    | error failure => exact ⟨rfl, rfl⟩
    | ok next => exact ⟨rfl, add_config hAdd⟩
  | addAll ms =>
    obtain ⟨hRun, hConfig⟩ := addAll_stores s ms
    rw [Stores.serve, hRun]
    exact ⟨rfl, hConfig⟩
  | finalize =>
    obtain ⟨hRun, hConfig⟩ := finalize_stores s
    rw [Stores.serve, hRun]
    exact ⟨rfl, hConfig⟩

/-- Calls on a session are those on its stores. -/
theorem stores_served (s : Session) (requests : List Request) :
    (s.served requests).stores = s.stores.served s.config requests ∧
    (s.served requests).config = s.config := by
  induction requests generalizing s with
  | nil => exact ⟨rfl, rfl⟩
  | cons request requests ih =>
    obtain ⟨hStores, hConfig⟩ := stores_serve s request
    obtain ⟨hRest, hSame⟩ := ih (s.serve request)
    rw [hStores, hConfig] at hRest
    exact ⟨hRest, hSame.trans hConfig⟩

end Session

/-! ## Refused entities -/

/-- The stores of a session are changed by every call step by step.  Whatever calls came before, an
addition that fails leaves all of them as they are.  So additions of any entities, those refused
included, lead to the stores that those taken in lead to alone, each of which then succeeds, and
the session is finalized in the same way. -/
theorem refused_without_trace [Limits] (config : Configuration) (scalars : Option (List String))
    (requests : List Request) :
    let session := (Session.start config scalars).served requests
    let stores := (Stores.start scalars).served config requests
    session.stores = stores ∧
    (∀ m, (Stores.add config m).on stores =
      ((session.add m).value.map fun _ => (), (session.serve (.add m)).stores)) ∧
    (∀ m failure, (session.add m).value = .error failure →
      (Stores.add config m).on stores = (.error failure, stores)) ∧
    ∀ ms : List Model,
      let kept := stores.accepted config ms
      kept.Sublist ms ∧
      (Stores.addAll config kept).on stores = (.ok (), stores.served config (ms.map .add)) ∧
      stores.served config (kept.map .add) = stores.served config (ms.map .add) ∧
      (session.served (kept.map .add)).finalize.value.2 =
        (session.served (ms.map .add)).finalize.value.2 := by
  intro session stores
  obtain ⟨hStores, hConfig⟩ := Session.stores_served (Session.start config scalars) requests
  have hStores : session.stores = stores := hStores
  have hConfig : session.config = config := hConfig
  have hAdd := fun m => hConfig ▸ hStores ▸ Session.add_stores session m
  refine ⟨hStores, fun m => ?_, fun m failure h => ?_, fun ms => ?_⟩
  · rw [hAdd, Session.serve, Session.perform]
    cases (session.add m).value with
    | error failure => exact hStores ▸ rfl
    | ok next => rfl
  · rw [hAdd, h]
  · intro kept
    obtain ⟨hRun, hSame⟩ := Stores.addAll_accepted config stores ms
    refine ⟨stores.accepted_sublist config ms, hRun, hSame, ?_⟩
    have hFinalize : ∀ later : List Request, (session.served later).finalize.value.2 =
        ((Stores.finalize config).on (stores.served config later)).1 := by
      intro later
      obtain ⟨hLater, hLaterConfig⟩ := Session.stores_served session later
      have hOutcome := (Session.finalize_stores (session.served later)).1
      rw [hLater, hLaterConfig, hStores, hConfig] at hOutcome
      rw [hOutcome]
    rw [hFinalize, hFinalize, hSame]

/-- An entity whose last operation has an argument with an unknown validator. -/
def misvalidatedModel : Model :=
  ⟨"Shelf", [], [], [⟨"all", "List", [], []⟩,
    ⟨"add", "Create", [⟨"place", "Int", false, true, [⟨"Nearby", []⟩]⟩], []⟩]⟩

/-- An entity whose only property has an unknown type. -/
def untypedModel : Model := ⟨"Shelf", [⟨"place", "Place", false, true, false, []⟩], [], []⟩

/-- Neither of them leaves a trace in a session that has another entity. -/
theorem misvalidated_without_trace :
    ∃ stores : Stores, stores.registry.models = [bookModel] ∧
      (Stores.add {} misvalidatedModel).on stores = (.error (.unknownValidator "Nearby"), stores) ∧
      (Stores.add {} untypedModel).on stores = (.error (.unknownType "Place"), stores) := by
  obtain ⟨-, -, hRefused, -⟩ := refused_without_trace {} none [.add bookModel]
  exact ⟨_, by rfl, hRefused _ _ (by rfl), hRefused _ _ (by rfl)⟩

end EntityGraph
