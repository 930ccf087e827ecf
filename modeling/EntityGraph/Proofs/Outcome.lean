import EntityGraph.Log
import Mathlib.Data.List.Forall2

/-!
# Successful outcomes

Rules that read an outcome backwards: a sequence of steps succeeds only if every step does, and then
the outcomes of the steps are known; if it fails, one of the steps does.

* `bind_eq_ok`, `bind_eq_error`, `bind_pure_eq_error`, `map_eq_ok`: two steps in a row;
* `mapM_eq_ok`, `mapM_cons_eq_error`, `mapM_eq_error`: a step for every item of a list, the outcomes
  in the order of the items;
* `Settled`: a step that fails exactly for a reason that is known beforehand;
* `foldlM_ok`: a state carried through the items of a list;
* `forIn_eq_ok`, `forIn_eq_error`: a check of every item of a list.
-/

namespace EntityGraph.Outcome

variable {ε α β : Type}

theorem bind_eq_ok {x : Except ε α} {f : α → Except ε β} {b : β} :
    x >>= f = .ok b ↔ ∃ a, x = .ok a ∧ f a = .ok b := by
  cases x with
  | error e => simp [bind, Except.bind]
  | ok a => simp [bind, Except.bind]

/-- Two steps in a row fail if one of them does. -/
theorem bind_eq_error {x : Except ε α} {f : α → Except ε β} {e : ε} :
    (x >>= f) = .error e ↔ x = .error e ∨ ∃ a, x = .ok a ∧ f a = .error e := by
  cases x with
  | error e' =>
    refine ⟨fun h => Or.inl (Except.error.inj h ▸ rfl), fun h => ?_⟩
    rcases h with hError | ⟨_, hOk, -⟩
    · exact Except.error.inj hError ▸ rfl
    · cases hOk
  | ok a =>
    refine ⟨fun h => Or.inr ⟨a, rfl, h⟩, fun h => ?_⟩
    rcases h with hError | ⟨a', hOk, h⟩
    · cases hError
    · exact Except.ok.inj hOk ▸ h

/-- A step that only puts a result together never fails. -/
theorem bind_pure_eq_error {x : Except ε α} {g : α → β} {e : ε} :
    (x >>= fun a => pure (g a)) = .error e ↔ x = .error e := by
  rw [bind_eq_error]
  simp [pure, Except.pure]

theorem map_eq_ok {x : Except ε α} {f : α → β} {b : β} :
    x.map f = .ok b ↔ ∃ a, x = .ok a ∧ f a = b := by
  cases x with
  | error e => simp [Except.map]
  | ok a => simp [Except.map]

theorem mapError_eq_ok {ε' : Type} {x : Except ε α} {f : ε → ε'} {a : α} :
    x.mapError f = .ok a ↔ x = .ok a := by
  cases x with
  | error e => simp [Except.mapError]
  | ok b => simp [Except.mapError]

/-- A failure is one under any other name. -/
theorem mapError_fails {ε' : Type} {x : Except ε α} {f : ε → ε'} :
    (∃ e, x.mapError f = .error e) ↔ ¬ ∃ a, x = .ok a := by
  cases x with
  | error e => simp [Except.mapError]
  | ok b => simp [Except.mapError]

theorem pure_eq_ok {a b : α} : (pure a : Except ε α) = .ok b ↔ a = b := by
  simp [pure, Except.pure]

theorem mapM_eq_ok {f : α → Except ε β} {xs : List α} {ys : List β} :
    xs.mapM f = .ok ys ↔ List.Forall₂ (fun x y => f x = .ok y) xs ys := by
  induction xs generalizing ys with
  | nil =>
    rw [List.mapM_nil, pure_eq_ok, List.forall₂_nil_left_iff]
    exact eq_comm
  | cons x xs ih =>
    rw [List.mapM_cons, bind_eq_ok, List.forall₂_cons_left_iff]
    constructor
    · rintro ⟨y, hy, h⟩
      obtain ⟨rest, hRest, h⟩ := bind_eq_ok.mp h
      exact ⟨y, rest, hy, ih.mp hRest, (pure_eq_ok.mp h).symm⟩
    · rintro ⟨y, rest, hy, hRest, rfl⟩
      exact ⟨y, hy, bind_eq_ok.mpr ⟨rest, ih.mpr hRest, rfl⟩⟩

/-- In lists that are related item by item, every item of the first has a partner in the second. -/
theorem partner_of_mem {r : α → β → Prop} {xs : List α} {ys : List β} (h : List.Forall₂ r xs ys)
    {x : α} (hx : x ∈ xs) : ∃ y ∈ ys, r x y := by
  induction h with
  | nil => simp at hx
  | cons head _ ih =>
    rcases List.mem_cons.mp hx with rfl | hx
    · exact ⟨_, List.mem_cons_self, head⟩
    · obtain ⟨y, hy, h⟩ := ih hx
      exact ⟨y, List.mem_cons_of_mem _ hy, h⟩

theorem mapM_mem {f : α → Except ε β} {xs : List α} {ys : List β} (h : xs.mapM f = .ok ys)
    {y : β} (hy : y ∈ ys) : ∃ x ∈ xs, f x = .ok y :=
  partner_of_mem (mapM_eq_ok.mp h).flip hy

theorem mem_mapM {f : α → Except ε β} {xs : List α} {ys : List β} (h : xs.mapM f = .ok ys)
    {x : α} (hx : x ∈ xs) : ∃ y ∈ ys, f x = .ok y :=
  partner_of_mem (mapM_eq_ok.mp h) hx

/-- A step for every item succeeds as soon as each single step does. -/
theorem mapM_ok {f : α → Except ε β} {xs : List α} (h : ∀ x ∈ xs, ∃ y, f x = .ok y) :
    ∃ ys, xs.mapM f = .ok ys := by
  induction xs with
  | nil => exact ⟨[], rfl⟩
  | cons x xs ih =>
    obtain ⟨y, hy⟩ := h x List.mem_cons_self
    obtain ⟨ys, hys⟩ := ih fun x hx => h x (List.mem_cons_of_mem _ hx)
    refine ⟨y :: ys, mapM_eq_ok.mpr ?_⟩
    exact List.Forall₂.cons hy (mapM_eq_ok.mp hys)

theorem mapM_congr {f g : α → Except ε β} {xs : List α} (h : ∀ x ∈ xs, f x = g x) :
    xs.mapM f = xs.mapM g := by
  induction xs with
  | nil => rfl
  | cons x xs ih =>
    rw [List.mapM_cons, List.mapM_cons, h x List.mem_cons_self,
      ih fun x hx => h x (List.mem_cons_of_mem _ hx)]

/-- A list cannot be mapped if its first item is at fault, or if it is mapped and the others cannot
be. -/
theorem mapM_cons_eq_error {f : α → Except ε β} {x : α} {xs : List α} {e : ε} :
    (x :: xs).mapM f = .error e ↔
      f x = .error e ∨ (∃ y, f x = .ok y) ∧ xs.mapM f = .error e := by
  rw [List.mapM_cons, bind_eq_error]
  simp only [bind_pure_eq_error, exists_and_right]

/-- A list that cannot be mapped has an item at fault. -/
theorem mapM_eq_error {f : α → Except ε β} {xs : List α} {e : ε}
    (h : xs.mapM f = .error e) : ∃ x ∈ xs, f x = .error e := by
  induction xs with
  | nil => cases h
  | cons x xs ih =>
    rcases mapM_cons_eq_error.mp h with hFirst | ⟨-, hRest⟩
    · exact ⟨x, List.mem_cons_self, hFirst⟩
    · obtain ⟨x', hx', hError⟩ := ih hRest
      exact ⟨x', List.mem_cons_of_mem _ hx', hError⟩

/-- What the items of a mapped list have in common with those that they come from. -/
theorem mapM_map_eq {f : α → Except ε β} {γ : Type} {g : β → γ} {h : α → γ}
    {xs : List α} {ys : List β} (hMap : xs.mapM f = .ok ys)
    (hItem : ∀ x y, f x = .ok y → g y = h x) :
    ys.map g = xs.map h := by
  rw [mapM_eq_ok] at hMap
  induction hMap with
  | nil => rfl
  | cons hFirst _ ih => rw [List.map_cons, List.map_cons, hItem _ _ hFirst, ih]

/-- A step that never fails on the items of a list is a plain function on them. -/
theorem mapM_eq_map {f : α → Except ε β} {g : α → β} {xs : List α}
    (h : ∀ x ∈ xs, f x = .ok (g x)) : xs.mapM f = .ok (xs.map g) := by
  rw [mapM_eq_ok, List.forall₂_map_right_iff, List.forall₂_same]
  exact h

theorem foldlM_ok {f : β → α → Except ε β} {xs : List α}
    (h : ∀ b, ∀ x ∈ xs, ∃ b', f b x = .ok b') (b : β) : ∃ b', xs.foldlM f b = .ok b' := by
  induction xs generalizing b with
  | nil => exact ⟨b, rfl⟩
  | cons x xs ih =>
    obtain ⟨next, hNext⟩ := h b x List.mem_cons_self
    obtain ⟨b', hb'⟩ := ih (fun c y hy => h c y (List.mem_cons_of_mem _ hy)) next
    exact ⟨b', by rw [List.foldlM_cons]; exact bind_eq_ok.mpr ⟨next, hNext, hb'⟩⟩

theorem foldlM_congr {f g : β → α → Except ε β} {xs : List α}
    (h : ∀ b, ∀ x ∈ xs, f b x = g b x) (b : β) : xs.foldlM f b = xs.foldlM g b := by
  induction xs generalizing b with
  | nil => rfl
  | cons x xs ih =>
    rw [List.foldlM_cons, List.foldlM_cons, h b x List.mem_cons_self]
    cases g b x with
    | error e => rfl
    | ok next => exact ih (fun c y hy => h c y (List.mem_cons_of_mem _ hy)) next

/-- A step of a loop that ends no loop early goes on exactly if it does not fail. -/
theorem exists_yield {x : Except ε β} {P : ForInStep PUnit → Prop} :
    (∃ step, (do
      let _ ← x
      pure (ForInStep.yield PUnit.unit)) = .ok step ∧ P step) ↔
      (∃ y, x = .ok y) ∧ P (.yield PUnit.unit) := by
  constructor
  · rintro ⟨step, hStep, h⟩
    obtain ⟨y, hy, hStep⟩ := bind_eq_ok.mp hStep
    obtain rfl := pure_eq_ok.mp hStep
    exact ⟨⟨y, hy⟩, h⟩
  · rintro ⟨⟨y, hy⟩, h⟩
    exact ⟨.yield PUnit.unit, bind_eq_ok.mpr ⟨y, hy, rfl⟩, h⟩

theorem forIn_eq_ok {f : α → Except ε β} {xs : List α} :
    (forIn xs PUnit.unit fun x _ => do
      let _ ← f x
      pure (ForInStep.yield PUnit.unit)) = .ok PUnit.unit ↔ ∀ x ∈ xs, ∃ y, f x = .ok y := by
  induction xs with
  | nil => simp [pure_eq_ok]
  | cons x xs ih =>
    rw [List.forIn_cons, bind_eq_ok, List.forall_mem_cons, ← ih]
    exact exists_yield

/-- A loop over a list fails as the list cannot be mapped. -/
theorem forIn_eq_error {f : α → Except ε β} {xs : List α} {e : ε} :
    (forIn xs PUnit.unit fun x _ => do
      let _ ← f x
      pure (ForInStep.yield PUnit.unit)) = .error e ↔ xs.mapM f = .error e := by
  induction xs with
  | nil => simp [pure, Except.pure]
  | cons x xs ih =>
    rw [List.forIn_cons, bind_eq_error, bind_pure_eq_error, mapM_cons_eq_error, ← ih]
    exact or_congr_right exists_yield

/-! ## Reasons -/

variable {ρ : Type} {failure : ρ → ε}

/-- A step that fails for a reason, and succeeds if there is none. -/
inductive Settled (failure : ρ → ε) : Except ε α → Option ρ → Prop
  | ok (a : α) : Settled failure (.ok a) none
  | error (reason : ρ) : Settled failure (.error (failure reason)) (some reason)

namespace Settled

variable {x : Except ε α} {r : Option ρ}

theorem ok_iff (h : Settled failure x r) : (∃ a, x = .ok a) ↔ r = none := by
  cases h <;> simp

theorem error_iff (h : Settled failure x r) {e : ε} :
    x = .error e ↔ ∃ reason, r = some reason ∧ e = failure reason := by
  cases h with
  | ok a => simp
  | error reason => simp [eq_comm]

theorem bind {f : α → Except ε β} (h : Settled failure x r) (hNext : ∀ a, ∃ b, f a = .ok b) :
    Settled failure (x >>= f) r := by
  cases h with
  | error reason => exact .error reason
  | ok a =>
    obtain ⟨b, hb⟩ := hNext a
    have hOk : (Except.ok a >>= f) = .ok b := hb
    rw [hOk]
    exact .ok b

/-- Steps for the items of a list fail for the first reason there is. -/
theorem mapM {f : α → Except ε β} {g : α → Option ρ} {xs : List α}
    (h : ∀ x ∈ xs, Settled failure (f x) (g x)) :
    Settled failure (xs.mapM f) (xs.findSome? g) := by
  induction xs with
  | nil => exact .ok []
  | cons x xs ih =>
    obtain ⟨hFirst, hRest⟩ := List.forall_mem_cons.mp h
    rw [List.mapM_cons, List.findSome?_cons]
    generalize f x = y, g x = r at hFirst
    cases hFirst with
    | error reason => exact .error reason
    | ok y => exact (ih hRest).bind fun ys => ⟨y :: ys, rfl⟩

end Settled

end EntityGraph.Outcome
