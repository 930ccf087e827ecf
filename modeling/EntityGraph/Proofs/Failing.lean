import EntityGraph.Log

/-!
# Failed outcomes

Rules that say which failures a sequence of steps can end with: those that its steps can end with,
whatever the steps give when they succeed.

* `FailsBy`: an outcome that is a success, or a failure with a property;
* `FailsBy.bind`, `FailsBy.map`: two steps in a row;
* `FailsBy.mapM`, `FailsBy.foldlM`: a step for every item of a list;
* `Ends`: an outcome of which a success has a property too;
* `GivesIf`: an outcome that a condition decides.
-/

namespace EntityGraph

/-- Every failure of an outcome has a property. -/
def FailsBy {ε α : Type} (P : ε → Prop) (x : Except ε α) : Prop := ∀ e, x = .error e → P e

namespace FailsBy

variable {ε α β : Type} {P : ε → Prop}

@[grind ←]
theorem ok (a : α) : FailsBy P (.ok a) := by
  intro e h
  cases h

@[grind ←]
theorem pure (a : α) : FailsBy P (Pure.pure a) := ok a

@[grind =]
theorem error_iff {e : ε} : FailsBy P (.error e : Except ε α) ↔ P e := by
  constructor
  · intro h
    exact h e rfl
  · intro h e' hEq
    exact Except.error.inj hEq ▸ h

@[grind =]
theorem throw_iff {e : ε} : FailsBy P (throw e : Except ε α) ↔ P e := error_iff

@[grind ←]
theorem bind {x : Except ε α} {f : α → Except ε β} (hx : FailsBy P x)
    (hf : ∀ a, FailsBy P (f a)) : FailsBy P (x >>= f) := by
  cases x with
  | ok a => exact hf a
  | error e => exact error_iff.mpr (hx e rfl)

@[grind ←]
theorem map {x : Except ε α} {f : α → β} (hx : FailsBy P x) : FailsBy P (x.map f) := by
  cases x with
  | ok a => exact ok (f a)
  | error e => exact error_iff.mpr (hx e rfl)

theorem mapError {ε' : Type} {f : ε' → ε} {x : Except ε' α} (h : ∀ e, P (f e)) :
    FailsBy P (x.mapError f) := by
  cases x with
  | ok a => exact ok a
  | error e => exact error_iff.mpr (h e)

theorem ite {c : Prop} [Decidable c] {x y : Except ε α} (hx : FailsBy P x) (hy : FailsBy P y) :
    FailsBy P (if c then x else y) := by
  split
  · exact hx
  · exact hy

theorem mapM {f : α → Except ε β} {xs : List α} (h : ∀ x ∈ xs, FailsBy P (f x)) :
    FailsBy P (xs.mapM f) := by
  induction xs with
  | nil => exact pure []
  | cons x xs ih =>
    rw [List.mapM_cons]
    refine bind (h x List.mem_cons_self) fun y => ?_
    exact bind (ih fun z hz => h z (List.mem_cons_of_mem _ hz)) fun ys => pure (y :: ys)

theorem foldlM {f : β → α → Except ε β} {xs : List α} (h : ∀ b, ∀ x ∈ xs, FailsBy P (f b x))
    (b : β) : FailsBy P (xs.foldlM f b) := by
  induction xs generalizing b with
  | nil => exact pure b
  | cons x xs ih =>
    rw [List.foldlM_cons]
    exact bind (h b x List.mem_cons_self) fun c =>
      ih (fun c y hy => h c y (List.mem_cons_of_mem _ hy)) c

theorem mono {Q : ε → Prop} {x : Except ε α} (h : FailsBy P x) (hPQ : ∀ e, P e → Q e) :
    FailsBy Q x :=
  fun e hEq => hPQ e (h e hEq)

end FailsBy

/-- A success with one property, or a failure with another. -/
def Ends {ε α : Type} (P : ε → Prop) (Q : α → Prop) (x : Except ε α) : Prop :=
  FailsBy P x ∧ ∀ a, x = .ok a → Q a

namespace Ends

variable {ε α β : Type} {P : ε → Prop} {Q : α → Prop} {R : β → Prop}

theorem ok {a : α} (h : Q a) : Ends P Q (.ok a) :=
  ⟨FailsBy.ok a, fun _ hEq => Except.ok.inj hEq ▸ h⟩

theorem error {e : ε} (h : P e) : Ends P Q (.error e) :=
  ⟨FailsBy.error_iff.mpr h, fun _ hEq => nomatch hEq⟩

theorem imp {Q' : α → Prop} {x : Except ε α} (h : Ends P Q x) (hQ : ∀ a, Q a → Q' a) :
    Ends P Q' x :=
  ⟨h.1, fun a hEq => hQ a (h.2 a hEq)⟩

theorem failsBy {x : Except ε α} (h : Ends P Q x) : FailsBy P x := h.1

theorem of_failsBy {x : Except ε α} (h : FailsBy P x) : Ends P (fun _ => True) x :=
  ⟨h, fun _ _ => trivial⟩

theorem bind {x : Except ε α} {f : α → Except ε β} (hx : Ends P Q x)
    (hf : ∀ a, Q a → Ends P R (f a)) : Ends P R (x >>= f) := by
  obtain ⟨hFails, hGives⟩ := hx
  cases x with
  | ok a => exact hf a (hGives a rfl)
  | error e => exact error (hFails e rfl)

theorem ite {c : Prop} [Decidable c] {x y : Except ε α} (hx : Ends P Q x) (hy : Ends P Q y) :
    Ends P Q (if c then x else y) := by
  split
  · exact hx
  · exact hy

end Ends

/-- A success with a value under a condition, and a failure otherwise. -/
def GivesIf {ε α : Type} (c : Bool) (a : α) (x : Except ε α) : Prop :=
  (c = true → x = .ok a) ∧ (c = false → ∃ e, x = .error e)

namespace GivesIf

variable {ε α β : Type} {c d : Bool} {a : α} {b : β} {x : Except ε α}

theorem of_eq (h : x = .ok a) : GivesIf true a x := ⟨fun _ => h, fun hNo => absurd hNo.symm Bool.false_ne_true⟩

theorem map (h : GivesIf c a x) (f : α → β) : GivesIf c (f a) (x.map f) := by
  refine ⟨fun hTrue => by rw [h.1 hTrue]; rfl, fun hFalse => ?_⟩
  obtain ⟨e, rfl⟩ := h.2 hFalse
  exact ⟨e, rfl⟩

theorem bind {f : α → Except ε β} (h : GivesIf c a x) (hNext : GivesIf d b (f a)) :
    GivesIf (c && d) b (x >>= f) := by
  cases c with
  | true =>
    rw [h.1 rfl]
    exact hNext
  | false =>
    obtain ⟨e, rfl⟩ := h.2 rfl
    exact ⟨fun hNo => absurd hNo Bool.false_ne_true, fun _ => ⟨e, rfl⟩⟩

end GivesIf

end EntityGraph
