import EntityGraph.Proofs.Clean
import EntityGraph.Proofs.Exposure
import EntityGraph.Proofs.Segments

/-!
# Attributes of handlers

A handler object has the attribute that its initializer sets, which holds the service, and the
methods of its class.  What is set on an object hides what its class defines under the same name, so
a method that is named like the attribute cannot be reached through the object.  The audit compares
neither names of methods nor attributes, and it passes entities for which the two meet: `Show` with
an operation `service` that shows it has the attribute and the method `show_service`.

* `HandlerClass.members`, `HandlerClass.attribute?`: what a class defines, and what an attribute of
  its objects stands for;
* `Hidden`: an operation whose method the attribute hides;
* `Sound.members_nodup`: the definitions of a class have different names;
* `attributes_distinct_iff`: which attributes meet, and what is bound to the root fields then.
-/

namespace EntityGraph

open Outcome Naming

namespace Handlers

/-- What an attribute of a handler object stands for. -/
inductive Member where
  | initializer
  | method (m : Method)
  | binder
  | service
deriving DecidableEq, Repr

namespace HandlerClass

/-- What the body of a class defines, in order. -/
def members (c : HandlerClass) : List (String × Member) :=
  ("__init__", .initializer) :: (c.methods.map fun m => (m.name, .method m)) ++ [("bind", .binder)]

/-- The names of the attributes of an object: those that its class defines, and the one that is set
on it. -/
def attributeNames (c : HandlerClass) : List String := c.members.map (·.1) ++ [c.holder]

/-- What an attribute of an object stands for.  What is set on the object comes first, and of several
definitions in its class the last one counts. -/
def attribute? (c : HandlerClass) (name : String) : Option Member :=
  if name = c.holder then some .service else (lastNamed Prod.fst c.members name).map (·.2)

variable {c : HandlerClass}

theorem attribute?_holder : c.attribute? c.holder = some .service := if_pos rfl

/-- In a class whose definitions have different names, a method that is not named like the attribute
is reached under its name. -/
theorem attribute?_method (h : (c.members.map (·.1)).Nodup) {m : Method} (hm : m ∈ c.methods)
    (hName : m.name ≠ c.holder) : c.attribute? m.name = some (.method m) := by
  have hMember : (m.name, Member.method m) ∈ c.members :=
    List.mem_append_left _ (List.mem_cons_of_mem _ (List.mem_map_of_mem hm))
  cases hLast : lastNamed Prod.fst c.members m.name with
  | none => exact absurd (List.mem_map_of_mem hMember) (lastNamed_eq_none.mp hLast)
  | some last =>
    obtain ⟨hLastMember, hSame⟩ := mem_of_lastNamed hLast
    have hEq := List.inj_on_of_nodup_map h hLastMember hMember hSame
    simp [attribute?, hName, hLast, hEq]

/-- Attributes differ if the definitions of the class do and no method is named like the attribute
that is set. -/
theorem attributeNames_nodup_iff (h : (c.members.map (·.1)).Nodup)
    (hOwn : ∀ name, name = "__init__" ∨ name = "bind" → c.holder ≠ name) :
    c.attributeNames.Nodup ↔ ∀ m ∈ c.methods, m.name ≠ c.holder := by
  have hHolder : c.holder ∉ c.members.map (·.1) ↔ ∀ m ∈ c.methods, m.name ≠ c.holder := by
    have hInit := hOwn "__init__" (.inl rfl)
    have hBind := hOwn "bind" (.inr rfl)
    simp [members, hInit, hBind]
  rw [attributeNames, List.nodup_append_comm, List.singleton_append, List.nodup_cons, hHolder]
  exact and_iff_left h

end HandlerClass

end Handlers

/-- An operation whose method has the name of the attribute that holds the service: the segments of
the entity's Pascal case start with the label of its kind, and its own name consists of the others of
them and the word of the service. -/
def Hidden (m : Model) (o : Operation) : Prop :=
  ∃ kind middle, o.kind? = .ok kind ∧
    segments (pascalChars m.name.toList) = lower kind.label.toList :: middle ∧
    segments o.name.toList = middle ++ [serviceSegment]

/-- Hidden operations of one entity are of one kind. -/
theorem Hidden.kind_eq {m : Model} {o o' : Operation} (h : Hidden m o) (h' : Hidden m o') :
    o.kind? = o'.kind? := by
  obtain ⟨kind, middle, hKind, hEntity, -⟩ := h
  obtain ⟨kind', middle', hKind', hEntity', -⟩ := h'
  have hLabels : lower kind.label.toList = lower kind'.label.toList :=
    (List.cons.inj (hEntity.symm.trans hEntity')).1
  have hSame : kind = kind' := by
    revert hLabels
    cases kind <;> cases kind' <;> decide +kernel
  rw [hKind, hKind', hSame]

namespace Sound

variable {models : List Model} {m : Model}

/-- An operation is hidden if its method is named like the attribute. -/
theorem hidden_iff (h : Sound models) (hm : m ∈ models) {o : Operation} (ho : o ∈ m.operations) :
    Hidden m o ↔ resolverMethod o.knownKind o.name = serviceAttribute m.name := by
  have hKind := h.kind?_eq hm ho
  rw [resolverMethod_eq_serviceAttribute_iff]
  constructor
  · rintro ⟨kind, middle, hKind', hWords⟩
    obtain rfl := Except.ok.inj (hKind.symm.trans hKind')
    exact ⟨middle, hWords⟩
  · rintro ⟨middle, hWords⟩
    exact ⟨_, middle, hKind, hWords⟩

/-- The method and the binding of an operation of an audited entity. -/
def handlerOf (m : Model) (o : Operation) : Handlers.Method × Handlers.Binding :=
  (⟨resolverMethod o.knownKind o.name, serviceAttribute m.name, o.knownKind.serviceMethod⟩,
    ⟨o.knownKind.root, rootField o.name m.name, resolverMethod o.knownKind o.name⟩)

/-- The handlers of an audited entity. -/
theorem classOf_eq (h : Sound models) (hm : m ∈ models) : Handlers.Piece.classOf m =
    .ok ⟨resolverClass m.name, serviceClass m.name, serviceAttribute m.name,
      m.operations.map fun o => (handlerOf m o).1, m.operations.map fun o => (handlerOf m o).2⟩ := by
  refine Handlers.Piece.classOf_eq_ok.mpr ⟨m.operations.map (handlerOf m), ?_, ?_⟩
  · refine mapM_eq_map fun o ho => ?_
    exact Handlers.Piece.handlersOf_eq_ok.mpr ⟨o.knownKind, h.kind?_eq hm ho, rfl⟩
  · rw [List.map_map, List.map_map]
    rfl

/-- The definitions of an audited entity's class have different names. -/
theorem members_nodup (h : Sound models) (hm : m ∈ models) {c : Handlers.HandlerClass}
    (hClass : Handlers.Piece.classOf m = .ok c) : (c.members.map (·.1)).Nodup := by
  obtain rfl := Except.ok.inj ((h.classOf_eq hm).symm.trans hClass)
  have hNames : (m.operations.map fun o => resolverMethod o.knownKind o.name).Nodup := by
    have hKinds : (m.operations.map Operation.knownKind).Nodup := by
      obtain ⟨kinds, hKinds, hNodup⟩ := h.clean.kinds m hm
      rwa [Except.ok.inj ((mapM_eq_map fun o ho => h.kind?_eq hm ho).symm.trans hKinds)]
    rw [List.Nodup, List.pairwise_map] at hKinds ⊢
    exact hKinds.imp fun hKind hName => hKind (resolverMethod_kind hName)
  have hApart : ∀ name, name = "__init__" ∨ name = "bind" →
      name ∉ m.operations.map fun o => resolverMethod o.knownKind o.name := by
    rintro name hOwn hMem
    obtain ⟨o, -, hName⟩ := List.mem_map.mp hMem
    exact resolverMethod_ne hOwn hName
  have hEach : ((m.operations.map fun o => (handlerOf m o).1).map
      fun x => (x.name, Handlers.Member.method x)).map (·.1) =
        m.operations.map fun o => resolverMethod o.knownKind o.name := by
    simp [handlerOf]
  rw [Handlers.HandlerClass.members, List.map_append, List.map_cons, hEach]
  refine List.nodup_append.mpr ⟨List.nodup_cons.mpr ⟨hApart _ (.inl rfl), hNames⟩, ?_, ?_⟩
  · exact List.nodup_singleton _
  · rintro name hFirst other hLast rfl
    obtain rfl := List.mem_singleton.mp hLast
    rcases List.mem_cons.mp hFirst with hInit | hMethod
    · exact absurd hInit (by decide)
    · exact hApart _ (.inr rfl) hMethod

end Sound

/-- In the class of an audited entity the names of the initializer, of the methods, of the binding
method and of the attribute that holds the service differ, but for one case: an operation may be
hidden, and then it is the only one.  What is bound to the root field of an operation is its method,
or the service if the operation is hidden. -/
theorem attributes_distinct_iff [Limits] {raw : Value} {d : Definitions} {settings : Configuration}
    {fs : Audit.Findings} (hParse : (Input.parse raw).value = .ok (d, settings))
    (hAudit : (Audit.full d.models Schema.defaultScalars).value = .ok fs)
    (hErrors : fs.hasErrors = false) (hWarnings : fs.hasWarnings = false) :
    ∀ m ∈ d.models, ∃ c, Handlers.Piece.classOf m = .ok c ∧
      (∀ config p, Handlers.render config m = .ok p → p.handlers = c) ∧
      (c.attributeNames.Nodup ↔ ∀ o ∈ m.operations, ¬ Hidden m o) ∧
      (c.members.map (·.1)).Nodup ∧
      (∀ o ∈ m.operations, ∀ o' ∈ m.operations, Hidden m o → Hidden m o' → o = o') ∧
      ∀ o ∈ m.operations, ∃ kind method, o.kind? = .ok kind ∧ method ∈ c.methods ∧
        method = ⟨resolverMethod kind o.name, c.holder, kind.serviceMethod⟩ ∧
        ⟨kind.root, rootField o.name m.name, method.name⟩ ∈ c.bindings ∧
        (Hidden m o → c.attribute? method.name = some .service) ∧
        (¬ Hidden m o → c.attribute? method.name = some (.method method)) := by
  have hSound : Sound d.models := .of_parse hParse hAudit hErrors hWarnings
  intro m hm
  have hClass := hSound.classOf_eq hm
  have hMembers := hSound.members_nodup hm hClass
  refine ⟨_, hClass, fun config p hPiece => ?_, ?_, hMembers, ?_, ?_⟩
  · exact Except.ok.inj ((Handlers.render_handlers hPiece).symm.trans hClass)
  · rw [Handlers.HandlerClass.attributeNames_nodup_iff hMembers fun name => serviceAttribute_ne,
      List.forall_mem_map]
    exact forall₂_congr fun o ho => not_congr (hSound.hidden_iff hm ho).symm
  · intro o ho o' ho' hHidden hHidden'
    have hKinds := hHidden.kind_eq hHidden'
    rw [hSound.kind?_eq hm ho, hSound.kind?_eq hm ho'] at hKinds
    exact hSound.operation_eq hm ho ho' (Except.ok.inj hKinds)
  · intro o ho
    have hMethod := List.mem_map_of_mem (f := fun o => (Sound.handlerOf m o).1) ho
    refine ⟨_, _, hSound.kind?_eq hm ho, hMethod, rfl, ?_, fun hHidden => ?_, fun hSeen => ?_⟩
    · exact List.mem_map_of_mem (f := fun o => (Sound.handlerOf m o).2) ho
    · have hName := (hSound.hidden_iff hm ho).mp hHidden
      exact (congrArg _ hName).trans Handlers.HandlerClass.attribute?_holder
    · refine Handlers.HandlerClass.attribute?_method hMembers hMethod ?_
      exact fun hName => hSeen ((hSound.hidden_iff hm ho).mpr hName)

/-- An entity that is named like a kind, with an operation of this kind that is named like its
service. -/
def servedShow : Model :=
  ⟨"Show", [⟨"title", "String", false, true, false, []⟩], [], [⟨"service", "Show", [], []⟩]⟩

/-- A value that reads as this entity. -/
def servedShowValue : Value :=
  .list [Value.record [("name", .text "Show"),
    ("properties", .list [Value.record [("name", .text "title"), ("type", .text "String")]]),
    ("operations", .list [Value.record [("name", .text "service"), ("type", .text "Show")]])]]

/-- An audit finds nothing to report on the entity, and the service is bound to its root field in
place of the method. -/
theorem servedShow_hidden :
    (∃ d settings, (Input.parse servedShowValue).value = .ok (d, settings) ∧
      d.models = [servedShow] ∧
      (Audit.full d.models Schema.defaultScalars).value = .ok []) ∧
    ∃ c, Handlers.Piece.classOf servedShow = .ok c ∧ ¬ c.attributeNames.Nodup ∧
      ∃ b ∈ c.bindings, b.field = "serviceShow" ∧ c.attribute? b.method = some .service := by
  have hParse : (Input.parse servedShowValue).value = .ok (.ofModels [servedShow], {}) := by rfl
  have hAudit : (Audit.full [servedShow] Schema.defaultScalars).value = .ok [] := by rfl
  have hHidden : Hidden servedShow ⟨"service", "Show", [], []⟩ :=
    ⟨.view, [], by rfl, by decide +kernel, by decide +kernel⟩
  obtain ⟨c, hClass, -, hDistinct, -, -, hBound⟩ :=
    attributes_distinct_iff hParse hAudit (by rfl) (by rfl) servedShow (.head _)
  obtain ⟨kind, method, -, -, -, hBinding, hService, -⟩ := hBound _ (.head _)
  refine ⟨⟨_, _, hParse, rfl, hAudit⟩, c, hClass, fun hNodup => ?_, _, hBinding, ?_, hService hHidden⟩
  · exact hDistinct.mp hNodup _ (.head _) hHidden
  · change rootField "service" "Show" = "serviceShow"
    decide +kernel

end EntityGraph
