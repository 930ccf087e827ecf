import EntityGraph.Proofs.Schema.History
import EntityGraph.Proofs.Schema.WellFormed

/-!
# Which calls make a registry outdated

Whether a registry is outdated can be told from the calls that led to it: an attempt to build a
schema came after an entity was registered, the entity was not registered again, but one that a
field of it refers to was.

* `IsLast`: a registered entity that is still the one of its name;
* `object_iff`: names lead to these;
* `kept_since`: kept fields are those that some attempt worked out;
* `outdated_iff`: a registry is outdated exactly if its calls are of this kind.
-/

namespace EntityGraph.Schema

open Outcome

/-- The last entity of its name, with its place. -/
def IsLast (models : List Model) (slot : Nat) (m : Model) : Prop :=
  models[slot]? = some m ∧ ∀ later m', slot < later → models[later]? = some m' → m'.name ≠ m.name

theorem IsLast.slot_lt {models : List Model} {slot : Nat} {m : Model} (h : IsLast models slot m) :
    slot < models.length := (List.getElem?_eq_some_iff.mp h.1).1

/-- An entity that is the last of its name stays so if none of its name follows. -/
theorem isLast_append {ms ms' : List Model} {slot : Nat} {m : Model} (hSlot : slot < ms.length) :
    IsLast (ms ++ ms') slot m ↔ IsLast ms slot m ∧ ∀ m' ∈ ms', m'.name ≠ m.name := by
  unfold IsLast
  rw [List.getElem?_append_left hSlot]
  constructor
  · rintro ⟨hHere, hLater⟩
    refine ⟨⟨hHere, fun later m' hLess hThere => ?_⟩, fun m' hm' => ?_⟩
    · have hBound := (List.getElem?_eq_some_iff.mp hThere).1
      exact hLater later m' hLess ((List.getElem?_append_left hBound).trans hThere)
    · obtain ⟨i, hi⟩ := List.mem_iff_getElem?.mp hm'
      refine hLater (ms.length + i) m' (by omega) ?_
      rw [List.getElem?_append_right (by omega)]
      simpa using hi
  · rintro ⟨⟨hHere, hLater⟩, hMore⟩
    refine ⟨hHere, fun later m' hLess hThere => ?_⟩
    by_cases hBound : later < ms.length
    · exact hLater later m' hLess ((List.getElem?_append_left hBound).symm.trans hThere)
    · rw [List.getElem?_append_right (by omega)] at hThere
      exact hMore m' (List.mem_of_getElem? hThere)

/-- A name leads to the last entity that has it. -/
theorem object_iff {scalars : List String} {models : List Model} {r : Registry}
    (h : register { scalars } models = .ok r) {name : String} {slot : Nat} :
    r.objects.get? name = some slot ↔ ∃ m, m.name = name ∧ IsLast models slot m := by
  induction models using List.reverseRecOn generalizing r slot with
  | nil =>
    obtain rfl := Except.ok.inj h
    simp [Table.get?, IsLast]
  | append_singleton ms m ih =>
    obtain ⟨before, hBefore, -, rfl⟩ := register_concat_eq_ok.mp h
    obtain ⟨hCoherent, -, hModels, -⟩ := register_spec hBefore
    have hLength : before.slots.length = ms.length := by
      rw [← hModels, ← hCoherent.models, List.length_map]
    simp only [Registry.insertObject, Registry.addModel, Table.get?_put, hLength]
    by_cases hName : m.name = name
    · simp only [hName, if_true, Option.some.injEq]
      constructor
      · rintro rfl
        refine ⟨m, hName, by simp, fun later m' hLess hThere => ?_⟩
        have hBound := (List.getElem?_eq_some_iff.mp hThere).1
        simp only [List.length_append, List.length_singleton] at hBound
        omega
      · rintro ⟨m', hName', hLast⟩
        have hBound := hLast.slot_lt
        simp only [List.length_append, List.length_singleton] at hBound
        by_contra hNe
        exact hLast.2 ms.length m (by omega) (by simp) (hName.trans hName'.symm)
    · simp only [hName, if_false, ih hBefore]
      refine exists_congr fun m' => and_congr_right fun hName' => ?_
      constructor
      · intro hLast
        refine (isLast_append hLast.slot_lt).mpr ⟨hLast, fun m'' hm'' => ?_⟩
        obtain rfl := List.mem_singleton.mp hm''
        exact fun hSame => hName (hSame.trans hName')
      · intro hLast
        have hBound := hLast.slot_lt
        simp only [List.length_append, List.length_singleton] at hBound
        by_cases hOld : slot < ms.length
        · exact ((isLast_append hOld).mp hLast).1
        · have hThere := hLast.1
          rw [List.getElem?_append_right (by omega)] at hThere
          obtain rfl := List.mem_singleton.mp (List.mem_of_getElem? hThere)
          exact absurd hName' hName

/-! ## Calls one after another -/

theorem after_append (r : Registry) (calls calls' : List Call) :
    after r (calls ++ calls') = after (after r calls) calls' := by
  simp [after]

theorem accepted_append (r : Registry) (calls calls' : List Call) :
    accepted r (calls ++ calls') = accepted r calls ++ accepted (after r calls) calls' := by
  induction calls generalizing r with
  | nil => rfl
  | cons call calls ih =>
    rw [List.cons_append, after, List.foldl_cons, ← after]
    cases call with
    | create => exact ih _
    | add m =>
      rw [perform, accepted, accepted]
      cases (addModel r m).value with
      | error failure => exact ih r
      | ok r' => exact congrArg (m :: ·) (ih r')

/-- What is kept in a slot stays there. -/
theorem Sources.keepSlot_kept (s : Sources) (reached : List TypeKey) {slot : Nat} {e : Slot}
    (hSlot : s.registry.slots[slot]? = some e) {kept : Table TypeExpr}
    (hKept : e.fields = some kept) :
    s.keepSlot reached slot e = e := by
  obtain ⟨model, fields⟩ := e
  obtain rfl : fields = some kept := hKept
  unfold Sources.keepSlot Sources.slotFields
  rw [hSlot]
  split <;> rfl

/-- A slot stays what it is after any call, and so do the fields that it keeps. -/
theorem perform_slot {r : Registry} {slot : Nat} {e : Slot} (hSlot : r.slots[slot]? = some e)
    (call : Call) : ∃ e', (perform r call).slots[slot]? = some e' ∧ e'.model = e.model ∧
      ∀ kept, e.fields = some kept → e'.fields = some kept := by
  cases call with
  | add m =>
    rw [perform]
    cases hAdd : (addModel r m).value with
    | error failure => exact ⟨e, hSlot, rfl, fun _ h => h⟩
    | ok r' =>
      obtain ⟨-, rfl⟩ := addModel_eq_ok.mp hAdd
      exact ⟨e, Registry.Coherent.slot_insert hSlot, rfl, fun _ h => h⟩
  | create =>
    rw [perform]
    rcases build_keeps r with hSame | ⟨s, reached, hSources, hKeep⟩
    · rw [hSame]
      exact ⟨e, hSlot, rfl, fun _ h => h⟩
    · obtain ⟨-, rfl, -⟩ := sources_eq_ok.mp hSources
      rw [hKeep]
      refine ⟨_, s.slot_keep reached hSlot, s.keepSlot_model reached slot e, fun kept hKept => ?_⟩
      rw [s.keepSlot_kept reached hSlot hKept]
      exact hKept

theorem after_slot {r : Registry} {slot : Nat} {e : Slot} (hSlot : r.slots[slot]? = some e)
    (calls : List Call) : ∃ e', (after r calls).slots[slot]? = some e' ∧ e'.model = e.model ∧
      ∀ kept, e.fields = some kept → e'.fields = some kept := by
  induction calls generalizing r e with
  | nil => exact ⟨e, hSlot, rfl, fun _ h => h⟩
  | cons call calls ih =>
    obtain ⟨e', hSlot', hModel, hKept⟩ := perform_slot hSlot call
    obtain ⟨e'', hSlot'', hModel', hKept'⟩ := ih hSlot'
    exact ⟨e'', hSlot'', hModel'.trans hModel, fun kept h => hKept' kept (hKept kept h)⟩

/-! ## Kept fields and attempts -/

/-- What a slot keeps after a call it has kept before, or the call was an attempt to build a schema
that worked it out. -/
theorem perform_kept {r : Registry} {call : Call} {slot : Nat} {e : Slot} {kept : Table TypeExpr}
    (hSlot : (perform r call).slots[slot]? = some e) (hKept : e.fields = some kept) :
    (∃ e', r.slots[slot]? = some e' ∧ e'.fields = some kept ∧ e'.model = e.model) ∨
      call = .create ∧ (∃ s, (sources r).value = .ok s) ∧ slot < r.slots.length ∧
        modelFields r e.model = .ok kept := by
  cases call with
  | add m =>
    rw [perform] at hSlot
    cases hAdd : (addModel r m).value with
    | error failure =>
      rw [hAdd] at hSlot
      exact Or.inl ⟨e, hSlot, hKept, rfl⟩
    | ok r' =>
      rw [hAdd] at hSlot
      obtain ⟨-, rfl⟩ := addModel_eq_ok.mp hAdd
      by_cases hOld : slot < r.slots.length
      · exact Or.inl ⟨e, (List.getElem?_append_left hOld).symm.trans hSlot, hKept, rfl⟩
      · have hNew := (List.getElem?_append_right (Nat.le_of_not_lt hOld)).symm.trans hSlot
        obtain rfl := List.mem_singleton.mp (List.mem_of_getElem? hNew)
        cases hKept
  | create =>
    rw [perform] at hSlot
    rcases build_keeps r with hSame | ⟨s, reached, hSources, hKeep⟩
    · rw [hSame] at hSlot
      exact Or.inl ⟨e, hSlot, hKept, rfl⟩
    · rw [hKeep] at hSlot
      obtain ⟨e', hSlot', rfl⟩ := s.keep_slot reached hSlot
      obtain ⟨-, rfl, -⟩ := sources_eq_ok.mp hSources
      rcases s.keepSlot_cases reached hSlot' with hSame | ⟨fields, hNew, hFields, -⟩
      · rw [hSame] at hKept ⊢
        exact Or.inl ⟨e', hSlot', hKept, rfl⟩
      · rw [hNew] at hKept ⊢
        obtain rfl := Option.some.inj hKept
        have hBound := (List.getElem?_eq_some_iff.mp hSlot').1
        exact Or.inr ⟨rfl, ⟨s, hSources⟩, hBound, hFields⟩

/-- Kept fields were worked out by an attempt after the entity had been registered. -/
theorem kept_since {r : Registry} (hNone : ∀ e ∈ r.slots, e.fields = none) (calls : List Call)
    {slot : Nat} {e : Slot} {kept : Table TypeExpr}
    (hSlot : (after r calls).slots[slot]? = some e) (hKept : e.fields = some kept) :
    ∃ early late, calls = early ++ .create :: late ∧
      (∃ s, (sources (after r early)).value = .ok s) ∧ slot < (after r early).slots.length ∧
      modelFields (after r early) e.model = .ok kept := by
  induction calls using List.reverseRecOn generalizing e with
  | nil =>
    rw [hNone e (List.mem_of_getElem? hSlot)] at hKept
    cases hKept
  | append_singleton calls call ih =>
    rw [after_append] at hSlot
    rcases perform_kept hSlot hKept with ⟨e', hSlot', hKept', hModel⟩ | ⟨rfl, hAttempt⟩
    · obtain ⟨early, late, rfl, hRest⟩ := ih hSlot' hKept'
      exact ⟨early, late ++ [call], by simp, hModel ▸ hRest⟩
    · exact ⟨calls, [], rfl, hAttempt⟩

/-- An attempt that gets as far as collecting types works out the fields of every registered object
type. -/
theorem create_keeps {r : Registry} {s : Sources} (hCoherent : r.Coherent)
    (hWell : ∀ m ∈ r.models, m.WellFormed) (hSources : (sources r).value = .ok s) {slot : Nat}
    (hCurrent : r.IsCurrent slot) : ∃ e kept,
      (perform r .create).slots[slot]? = some e ∧ e.fields = some kept := by
  obtain ⟨rfl, hGrounded⟩ := Sources.grounded hCoherent hSources
  obtain ⟨keys, hTypes⟩ := hGrounded.types_ok fun k hk => hGrounded.definition_ok hWell hk
  obtain ⟨hComplete, -⟩ := hGrounded.types_spec (P := fun _ => True)
    (fun _ _ _ _ _ => trivial) (fun _ _ => trivial) hTypes
  have hKeep : perform s.registry .create = s.keep keys := by
    rw [perform, build_value, hSources]
    simp only [Sources.build, hTypes]
  obtain ⟨name, hObject⟩ := hCurrent
  obtain ⟨e, hSlot, -⟩ := hCoherent.object hObject
  obtain ⟨fields, hFields⟩ := hGrounded.slotFields_ok hWell hSlot
  have hReached : (keys.any fun key => key.origin = .entity slot) = true := by
    refine List.any_eq_true.mpr ⟨⟨.entity slot, name⟩, hComplete.starts ?_, by simp⟩
    exact List.mem_append_left _ (hGrounded.objectKeys_mem.mpr ⟨slot, hObject, rfl⟩)
  refine ⟨{ e with fields := some fields }, fields, ?_, rfl⟩
  rw [hKeep, s.slot_keep keys hSlot, Sources.keepSlot, hReached, hFields]
  rfl

/-! ## Outdated registries -/

/-- After an entity was registered, an attempt to build a schema got as far as collecting types; the
entity was not registered again afterwards, but the type of one of its fields was. -/
def Redefined (scalars : List String) (calls : List Call) : Prop :=
  ∃ early late, calls = early ++ .create :: late ∧
    (∃ s, (sources (after { scalars } early)).value = .ok s) ∧
    ∃ slot m, slot < (accepted { scalars } early).length ∧
      IsLast (accepted { scalars } calls) slot m ∧
      ∃ f ∈ surviving (declarations m), f.2.type ∉ scalars ∧
        ∃ m' ∈ (accepted { scalars } calls).drop (accepted { scalars } early).length,
          m'.name = f.2.type

namespace Trail

variable {scalars : List String} {models : List Model} {r : Registry}

theorem models_eq (h : Trail scalars models r) : r.models = models :=
  (register_spec h.fresh).2.2.1

theorem scalars_eq (h : Trail scalars models r) : r.scalars = scalars :=
  (register_spec h.fresh).2.1

theorem length_eq (h : Trail scalars models r) : r.slots.length = models.length := by
  rw [← h.models_eq, ← h.coherent.models, List.length_map]

theorem object_iff (h : Trail scalars models r) {name : String} {slot : Nat} :
    r.objects.get? name = some slot ↔ ∃ m, m.name = name ∧ IsLast models slot m :=
  Schema.object_iff h.fresh

theorem model_at (h : Trail scalars models r) {slot : Nat} {e : Slot}
    (hSlot : r.slots[slot]? = some e) : models[slot]? = some e.model := by
  rw [← h.models_eq, ← h.coherent.models, List.getElem?_map, hSlot]
  rfl

/-- The registered entity that a declaration refers to, unless it refers to a scalar. -/
theorem target (h : Trail scalars models r) {name : String} {key : TypeKey}
    (hFind : r.find? name = some key) : name ∈ scalars ∧ key.origin = .scalar ∨
      name ∉ scalars ∧ ∃ slot m, key.origin = .entity slot ∧ m.name = name ∧
        IsLast models slot m := by
  rcases Registry.find?_eq_some.mp hFind with ⟨hScalar, rfl⟩ | ⟨hScalar, slot, hObject, rfl⟩
  · exact Or.inl ⟨h.scalars_eq ▸ hScalar, rfl⟩
  · obtain ⟨m, hName, hLast⟩ := h.object_iff.mp hObject
    exact Or.inr ⟨h.scalars_eq ▸ hScalar, slot, m, rfl, hName, hLast⟩

end Trail

/-- The entities that more calls register come after those registered before. -/
theorem accepted_split (scalars : List String) (early late : List Call) :
    (accepted { scalars } (early ++ late)).drop (accepted { scalars } early).length =
      accepted (after { scalars } early) late := by
  rw [accepted_append, List.drop_left]

theorem Redefined.of_outdated {scalars : List String} {calls : List Call}
    (h : (after { scalars } calls).Outdated) : Redefined scalars calls := by
  obtain ⟨slot, e, kept, hCurrent, hSlot, hKept, f, hf, other, hOther, hGone⟩ := h
  have hTrail := after_trail scalars calls
  obtain ⟨early, late, rfl, hSources, hBound, hModel⟩ := kept_since (by simp) calls hSlot hKept
  have hEarly := after_trail scalars early
  obtain ⟨hHas, rfl⟩ := modelFields_eq_ok.mp hModel
  obtain ⟨g, hg, rfl⟩ := List.mem_map.mp hf
  have hFind := Registry.typeIn_key (hHas g.2 (mem_of_mem_surviving hg).1)
  refine ⟨early, late, rfl, hSources, slot, e.model, hEarly.length_eq ▸ hBound, ?_, g, hg, ?_⟩
  · obtain ⟨m, -, hLast⟩ := hTrail.object_iff.mp (hTrail.coherent.current_name hSlot hCurrent)
    obtain rfl := Option.some.inj (hLast.1.symm.trans (hTrail.model_at hSlot))
    exact hLast
  · rcases hEarly.target hFind with ⟨-, hScalar⟩ | ⟨hScalar, other', m, hOther', hName, hLast⟩
    · cases hScalar.symm.trans hOther
    · obtain rfl := Origin.entity.inj (hOther'.symm.trans hOther)
      refine ⟨hScalar, ?_⟩
      by_contra hNone
      push Not at hNone
      rw [accepted_split] at hNone
      refine hGone ⟨g.2.type, hTrail.object_iff.mpr ⟨m, hName, ?_⟩⟩
      rw [accepted_append]
      exact (isLast_append hLast.slot_lt).mpr ⟨hLast, fun m' hm' => hName ▸ hNone m' hm'⟩

/-- After an attempt, the object type of the last entity of a name keeps the fields that this attempt
or one before it worked out. -/
theorem kept_after_create {scalars : List String} {early late : List Call} {s : Sources}
    (hSources : (sources (after { scalars } early)).value = .ok s) {slot : Nat} {m : Model}
    (hBound : slot < (accepted { scalars } early).length)
    (hLast : IsLast (accepted { scalars } (early ++ .create :: late)) slot m)
    (hWell : ∀ m ∈ accepted { scalars } (early ++ .create :: late), m.WellFormed) :
    ∃ first rest e kept, early = first ++ rest ∧
      (after { scalars } (early ++ .create :: late)).slots[slot]? = some e ∧ e.model = m ∧
      e.fields = some kept ∧ modelFields (after { scalars } first) m = .ok kept := by
  have hTrail := after_trail scalars (early ++ .create :: late)
  have hEarly := after_trail scalars early
  have hSplit := accepted_append { scalars } early (.create :: late)
  have hFirst : IsLast (accepted { scalars } early) slot m := by
    rw [hSplit] at hLast
    exact ((isLast_append hBound).mp hLast).1
  have hWellEarly : ∀ m ∈ (after { scalars } early).models, m.WellFormed := by
    intro m hm
    rw [hEarly.models_eq] at hm
    exact hWell m (hSplit ▸ List.mem_append_left _ hm)
  -- the fields may have been kept by an earlier attempt, which then worked them out
  obtain ⟨e, kept, hSlot, hKept⟩ := create_keeps hEarly.coherent hWellEarly hSources
    ⟨m.name, hEarly.object_iff.mpr ⟨m, rfl, hFirst⟩⟩
  have hAttempt : after { scalars } (early ++ [.create]) =
      perform (after { scalars } early) .create := by
    rw [after_append]
    rfl
  obtain ⟨first, more, hCalls, -, -, hModel⟩ :=
    kept_since (by simp) (early ++ [.create]) (hAttempt ▸ hSlot) hKept
  have hLength := congrArg List.length hCalls
  simp only [List.length_append, List.length_cons, List.length_nil] at hLength
  obtain ⟨rest, rfl⟩ : first <+: early :=
    List.prefix_of_prefix_length_le ⟨_, hCalls.symm⟩ (List.prefix_append early [.create]) (by omega)
  obtain ⟨e', hSlot', hSame, hKept'⟩ := after_slot hSlot late
  have hAfter : (after { scalars } (first ++ rest ++ .create :: late)).slots[slot]? = some e' := by
    rw [after_append]
    exact hSlot'
  obtain rfl : m = e.model := by
    rw [← hSame]
    exact Option.some.inj (hLast.1.symm.trans (hTrail.model_at hAfter))
  exact ⟨first, rest, e', kept, rfl, hAfter, hSame, hKept' kept hKept, hModel⟩

theorem Redefined.outdated {scalars : List String} {calls : List Call} (h : Redefined scalars calls)
    (hWell : ∀ m ∈ accepted { scalars } calls, m.WellFormed) :
    (after { scalars } calls).Outdated := by
  obtain ⟨early, late, rfl, ⟨s, hSources⟩, slot, m, hBound, hLast, g, hg, hScalar, m', hm',
    hName'⟩ := h
  have hTrail := after_trail scalars (early ++ .create :: late)
  rw [accepted_split] at hm'
  obtain ⟨first, rest, e, kept, rfl, hSlot, hSame, hKept, hModel⟩ :=
    kept_after_create hSources hBound hLast hWell
  have hFirstTrail := after_trail scalars first
  obtain ⟨hHas, rfl⟩ := modelFields_eq_ok.mp hModel
  have hFind := Registry.typeIn_key (hHas g.2 (mem_of_mem_surviving hg).1)
  obtain ⟨-, other, target, hOther, hName, hOld⟩ :=
    (hFirstTrail.target hFind).resolve_left fun h => hScalar h.1
  -- what that field refers to is not the last entity of its name any more
  refine ⟨slot, e, _, ⟨m.name, hTrail.object_iff.mpr ⟨_, rfl, hLast⟩⟩, hSlot, hKept, _,
    List.mem_map_of_mem hg, other, hOther, ?_⟩
  rintro ⟨name, hObject⟩
  obtain ⟨target', -, hLast'⟩ := hTrail.object_iff.mp hObject
  have hEarlier := accepted_append { scalars } first (rest ++ .create :: late)
  rw [← List.append_assoc] at hEarlier
  have hHere : (accepted { scalars } (first ++ rest ++ .create :: late))[other]? = some target := by
    rw [hEarlier, List.getElem?_append_left hOld.slot_lt]
    exact hOld.1
  obtain rfl := Option.some.inj (hHere.symm.trans hLast'.1)
  rw [hEarlier, isLast_append hOld.slot_lt] at hLast'
  refine hLast'.2 m' ?_ (hName'.trans hName.symm)
  rw [accepted_append]
  exact List.mem_append_right _ (by rwa [← after_append])

/-- A registry of well-formed entities is outdated exactly if one of them was registered again. -/
theorem outdated_iff {scalars : List String} {calls : List Call}
    (hWell : ∀ m ∈ accepted { scalars } calls, m.WellFormed) :
    (after { scalars } calls).Outdated ↔ Redefined scalars calls :=
  ⟨.of_outdated, fun h => h.outdated hWell⟩

end EntityGraph.Schema
