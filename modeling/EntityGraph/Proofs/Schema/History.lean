import EntityGraph.Proofs.Schema.Outdated

/-!
# Schemas and the attempts before them

A registry may be asked for its schema several times, between registrations, and each attempt leaves
the fields that it worked out.  What the last attempt gives is compared with what a new registry
gives for the same entities.

* `Call`, `after`, `accepted`: calls, what they leave and the entities that they register;
* `Trail`: a registry is a new one with the same entities and some fields kept;
* `after_trail`: this holds after any calls.
-/

namespace EntityGraph.Schema

open Outcome

/-- A call: an entity to register, or a schema to build. -/
inductive Call where
  | add (m : Model)
  | create

/-- What one call leaves. -/
def perform (r : Registry) : Call → Registry
  | .add m =>
    match (addModel r m).value with
    | .ok r' => r'
    | .error _ => r
  | .create => (build r).value.1

/-- What calls leave. -/
def after (r : Registry) (calls : List Call) : Registry := calls.foldl perform r

/-- The entities that calls register. -/
def accepted (r : Registry) : List Call → List Model
  | [] => []
  | .add m :: calls =>
    match (addModel r m).value with
    | .ok r' => m :: accepted r' calls
    | .error _ => accepted r calls
  | .create :: calls => accepted (build r).value.1 calls

/-- A registry that registrations of entities and attempts to build a schema have left. -/
structure Trail (scalars : List String) (models : List Model) (r : Registry) : Prop where
  coherent : r.Coherent
  fresh : register { scalars } models = .ok r.forget

/-- An attempt to build a schema only keeps fields. -/
theorem build_keeps (r : Registry) :
    (build r).value.1 = r ∨ ∃ s reached, (sources r).value = .ok s ∧
      (build r).value.1 = s.keep reached := by
  rw [build_value]
  cases (sources r).value with
  | error failure => exact Or.inl rfl
  | ok s =>
    refine Or.inr ?_
    simp only [Sources.build]
    cases s.types with
    | error halt => exact ⟨s, halt.seen, rfl, rfl⟩
    | ok keys => exact ⟨s, keys, rfl, rfl⟩

theorem forget_build (r : Registry) : (build r).value.1.forget = r.forget := by
  rcases build_keeps r with hSame | ⟨s, reached, hSources, hKeep⟩
  · rw [hSame]
  · obtain ⟨-, hRegistry, -⟩ := sources_eq_ok.mp hSources
    rw [hKeep, Registry.forget_keep, hRegistry]

namespace Trail

variable {scalars : List String} {models : List Model} {r : Registry}

theorem start (scalars : List String) : Trail scalars [] { scalars } :=
  ⟨.empty scalars, rfl⟩

theorem add (h : Trail scalars models r) {r' : Registry} {m : Model}
    (hAdd : (addModel r m).value = .ok r') : Trail scalars (models ++ [m]) r' := by
  refine ⟨?_, ?_⟩
  · obtain ⟨hCheck, rfl⟩ := addModel_eq_ok.mp hAdd
    exact h.coherent.addModel (checkModel_eq_ok.mp hCheck).2
  · obtain ⟨hCheck, hForget⟩ := addModel_eq_ok.mp (Registry.addModel_forget hAdd)
    exact register_concat_eq_ok.mpr ⟨_, h.fresh, hCheck, hForget⟩

theorem create (h : Trail scalars models r) : Trail scalars models (build r).value.1 := by
  refine ⟨?_, (forget_build r).symm ▸ h.fresh⟩
  rcases build_keeps r with hSame | ⟨s, reached, hSources, hKeep⟩
  · rw [hSame]
    exact h.coherent
  · obtain ⟨rfl, hGrounded⟩ := Sources.grounded h.coherent hSources
    rw [hKeep]
    exact hGrounded.coherent.keep reached

/-- Calls extend a trail by the entities that they register. -/
theorem calls (h : Trail scalars models r) (calls : List Call) :
    Trail scalars (models ++ accepted r calls) (after r calls) := by
  induction calls generalizing models r with
  | nil => simpa [accepted, after] using h
  | cons call calls ih =>
    rw [after, List.foldl_cons, ← after]
    cases call with
    | create => exact ih h.create
    | add m =>
      rw [perform, accepted]
      cases hAdd : (addModel r m).value with
      | error failure => exact ih h
      | ok r' =>
        have hRest := ih (h.add hAdd)
        rwa [List.append_assoc, List.singleton_append] at hRest

end Trail

/-- After any calls, a registry is a new one with the entities registered and some fields kept. -/
theorem after_trail (scalars : List String) (calls : List Call) :
    Trail scalars (accepted { scalars } calls) (after { scalars } calls) :=
  (Trail.start scalars).calls calls

end EntityGraph.Schema
