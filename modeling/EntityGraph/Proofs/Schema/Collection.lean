import EntityGraph.Proofs.Outcome
import EntityGraph.Schema.Graph
import Mathlib.Data.List.Nodup
import Mathlib.Logic.Relation

/-!
# What a collection of types collects

`collect` follows references depth first under a bound on the depth.  If the bound exceeds the
number of types that refer to others and have not been seen, it is never met: whatever is collected
newly has a definition, and all that it refers to is collected too or waits for its own turn
(`collect_extends`).  After the last turn nothing waits, so the types collected are closed under
references (`collectAll_extends`).

* `Refers`: one type refers to another;
* `Bounded`: types closed under references, of which only listed ones refer to others;
* `Extends`: the types before and after a part of a collection;
* `collect_ok`, `collectAll_ok`: a collection of types with definitions succeeds;
* `collect_congr`, `collectAll_congr`: it depends on the definitions of known types only.
-/

namespace EntityGraph.Schema

open Outcome

/-- A type with a definition in which another one occurs. -/
def Refers (define : TypeKey → Except Failure TypeDef) (a b : TypeKey) : Prop :=
  ∃ d, define a = .ok d ∧ b ∈ d.references

/-- Types closed under references.  Those that refer to any type at all are among `inner`. -/
structure Bounded (define : TypeKey → Except Failure TypeDef) (inner : List TypeKey)
    (known : TypeKey → Prop) : Prop where
  closed : ∀ {a b}, known a → Refers define a b → known b
  inner : ∀ {a b}, known a → Refers define a b → a ∈ inner

/-- The types before and after a part of a collection, while others wait for their turn. -/
structure Extends (define : TypeKey → Except Failure TypeDef) (known : TypeKey → Prop)
    (waiting before after : List TypeKey) : Prop where
  subset : before ⊆ after
  nodup : before.Nodup → after.Nodup
  known : ∀ a ∈ after, a ∉ before → known a
  defined : ∀ a ∈ after, a ∉ before → ∃ d, define a = .ok d
  closed : ∀ a ∈ after, a ∉ before → ∀ b, Refers define a b → b ∈ after ∨ b ∈ waiting

namespace Extends

variable {define : TypeKey → Except Failure TypeDef} {known : TypeKey → Prop}
  {waiting before middle after : List TypeKey}

theorem refl (define : TypeKey → Except Failure TypeDef) (known : TypeKey → Prop)
    (waiting before : List TypeKey) : Extends define known waiting before before where
  subset := fun _ h => h
  nodup := id
  known := fun _ h hNew => absurd h hNew
  defined := fun _ h hNew => absurd h hNew
  closed := fun _ h hNew => absurd h hNew

theorem trans (h₁ : Extends define known waiting before middle)
    (h₂ : Extends define known waiting middle after) :
    Extends define known waiting before after where
  subset := fun _ h => h₂.subset (h₁.subset h)
  nodup := fun h => h₂.nodup (h₁.nodup h)
  known := by
    intro a ha hNew
    by_cases hMiddle : a ∈ middle
    · exact h₁.known a hMiddle hNew
    · exact h₂.known a ha hMiddle
  defined := by
    intro a ha hNew
    by_cases hMiddle : a ∈ middle
    · exact h₁.defined a hMiddle hNew
    · exact h₂.defined a ha hMiddle
  closed := by
    intro a ha hNew b hb
    by_cases hMiddle : a ∈ middle
    · exact (h₁.closed a hMiddle hNew b hb).imp_left (fun h => h₂.subset h)
    · exact h₂.closed a ha hMiddle b hb

/-- A type with a definition, followed by all that a collection of its references adds. -/
theorem add {key : TypeKey} {d : TypeDef} (hKnown : known key) (hNew : key ∉ before)
    (hDef : define key = .ok d)
    (hTail : Extends define known waiting (before ++ [key]) after)
    (hRefs : ∀ b ∈ d.references, b ∈ after ∨ b ∈ waiting) :
    Extends define known waiting before after := by
  have hLater : ∀ a, a ∉ before → a ≠ key → a ∉ before ++ [key] := by
    intro a hFresh hNe hMem
    exact (List.mem_append.mp hMem).elim hFresh fun h => hNe (List.mem_singleton.mp h)
  refine ⟨fun _ hMem => hTail.subset (List.mem_append_left _ hMem), ?_, ?_, ?_, ?_⟩
  · intro hNodup
    refine hTail.nodup (List.nodup_append.mpr ⟨hNodup, List.nodup_singleton _, ?_⟩)
    rintro a ha b hb rfl
    exact hNew (List.mem_singleton.mp hb ▸ ha)
  · intro a ha hFresh
    by_cases hNe : a = key
    · exact hNe ▸ hKnown
    · exact hTail.known a ha (hLater a hFresh hNe)
  · intro a ha hFresh
    by_cases hNe : a = key
    · exact ⟨d, hNe ▸ hDef⟩
    · exact hTail.defined a ha (hLater a hFresh hNe)
  · intro a ha hFresh b hb
    by_cases hNe : a = key
    · subst hNe
      obtain ⟨d', hDef', hMem⟩ := hb
      obtain rfl := Except.ok.inj (hDef.symm.trans hDef')
      exact hRefs b hMem
    · exact hTail.closed a ha (hLater a hFresh hNe) b hb

end Extends

section

variable {define define' : TypeKey → Except Failure TypeDef} {inner : List TypeKey}
  {known : TypeKey → Prop}

/-- The types that may refer to others and have not been seen. -/
def unseen (inner seen : List TypeKey) : List TypeKey := inner.filter fun k => k ∉ seen

theorem unseen_le {before after : List TypeKey} (h : before ⊆ after) :
    (unseen inner after).length ≤ (unseen inner before).length := by
  refine List.Sublist.length_le (List.monotone_filter_right _ ?_)
  intro k hk
  simp only [decide_eq_true_eq] at hk ⊢
  exact fun hMem => hk (h hMem)

theorem unseen_append_lt {seen : List TypeKey} {key : TypeKey} (hInner : key ∈ inner)
    (hNew : key ∉ seen) : (unseen inner (seen ++ [key])).length < (unseen inner seen).length := by
  have hSplit : unseen inner (seen ++ [key]) = (unseen inner seen).filter fun k => k ≠ key := by
    simp only [unseen, List.filter_filter]
    refine List.filter_congr fun k _ => ?_
    by_cases hk : k = key <;> simp [hk]
  rw [hSplit]
  refine List.length_filter_lt_length_iff_exists.mpr ⟨key, ?_, by simp⟩
  exact List.mem_filter.mpr ⟨hInner, by simpa using hNew⟩

/-- The step lemma of `foldlM` over the references of one type. -/
theorem foldlM_extends {waiting : List TypeKey}
    {visit : List TypeKey → TypeKey → Except Halt (List TypeKey)} {base : List TypeKey}
    (refs : List TypeKey)
    (hVisit : ∀ seen, base ⊆ seen → ∀ k ∈ refs, ∀ seen', visit seen k = .ok seen' →
      Extends define known waiting seen seen' ∧ (k ∈ seen' ∨ k ∈ waiting)) :
    ∀ seen seen', base ⊆ seen → refs.foldlM visit seen = .ok seen' →
      Extends define known waiting seen seen' ∧ ∀ k ∈ refs, k ∈ seen' ∨ k ∈ waiting := by
  induction refs with
  | nil =>
    intro seen seen' _ h
    obtain rfl := pure_eq_ok.mp h
    exact ⟨.refl _ _ _ _, by simp⟩
  | cons k refs ih =>
    intro seen seen' hBase h
    rw [List.foldlM_cons] at h
    obtain ⟨next, hNext, hRest⟩ := bind_eq_ok.mp h
    obtain ⟨hStep, hk⟩ := hVisit seen hBase k List.mem_cons_self next hNext
    have hBase' : base ⊆ next := fun _ hMem => hStep.subset (hBase hMem)
    obtain ⟨hTail, hRefs⟩ := ih (fun s hs k hk => hVisit s hs k (List.mem_cons_of_mem _ hk))
      next seen' hBase' hRest
    refine ⟨hStep.trans hTail, List.forall_mem_cons.mpr ⟨?_, hRefs⟩⟩
    exact hk.imp_left (fun hMem => hTail.subset hMem)

/-- A collection from one type.  Every call on the way adds a type that refers to others, so the
bound on the depth is not met while it exceeds their number. -/
theorem collect_extends (hB : Bounded define inner known) (waiting : List TypeKey) :
    ∀ (fuel : Nat) (seen : List TypeKey) (key : TypeKey) (seen' : List TypeKey), known key →
      (unseen inner seen).length < fuel → collect define waiting fuel seen key = .ok seen' →
      Extends define known waiting seen seen' ∧ (key ∈ seen' ∨ key ∈ waiting) := by
  intro fuel
  induction fuel with
  | zero => intro _ _ _ _ hFuel; exact absurd hFuel (Nat.not_lt_zero _)
  | succ fuel ih =>
    intro seen key seen' hKnown hFuel h
    rw [collect] at h
    split at h
    · rename_i hSkip
      obtain rfl := Except.ok.inj h
      refine ⟨.refl _ _ _ _, ?_⟩
      simpa [or_comm] using hSkip
    · rename_i hSkip
      have hNew : key ∉ seen := by
        intro hMem
        exact hSkip (by simp [hMem])
      cases hDef : define key with
      | error failure => rw [hDef] at h; cases h
      | ok d =>
        rw [hDef] at h
        have hRefers : ∀ k ∈ d.references, Refers define key k := fun k hk => ⟨d, hDef, hk⟩
        have hVisit : ∀ s, seen ++ [key] ⊆ s → ∀ k ∈ d.references, ∀ s',
            collect define waiting fuel s k = .ok s' →
            Extends define known waiting s s' ∧ (k ∈ s' ∨ k ∈ waiting) := by
          intro s hs k hk s' hCollect
          have hInner := hB.inner hKnown (hRefers k hk)
          have hLess := unseen_append_lt hInner hNew
          have hMore : (unseen inner s).length ≤ (unseen inner (seen ++ [key])).length :=
            unseen_le hs
          exact ih s k s' (hB.closed hKnown (hRefers k hk)) (by omega) hCollect
        obtain ⟨hTail, hRefs⟩ := foldlM_extends d.references hVisit (seen ++ [key]) seen'
          (fun _ hMem => hMem) h
        exact ⟨.add hKnown hNew hDef hTail hRefs, Or.inl (hTail.subset (by simp))⟩

/-- A collection from several types in turn, after which nothing waits. -/
theorem collectAll_extends (hB : Bounded define inner known) {fuel : Nat}
    (hFuel : inner.length < fuel) :
    ∀ (starts seen seen' : List TypeKey), (∀ k ∈ starts, known k) →
      collectAll define fuel seen starts = .ok seen' →
      Extends define known [] seen seen' ∧ ∀ k ∈ starts, k ∈ seen' := by
  intro starts
  induction starts with
  | nil =>
    intro seen seen' _ h
    obtain rfl := Except.ok.inj h
    exact ⟨.refl _ _ _ _, by simp⟩
  | cons key rest ih =>
    intro seen seen' hKnown h
    rw [collectAll] at h
    obtain ⟨next, hNext, hRest⟩ := bind_eq_ok.mp h
    have hLess : (unseen inner seen).length < fuel :=
      Nat.lt_of_le_of_lt (List.length_filter_le _ _) hFuel
    obtain ⟨hStep, hKey⟩ := collect_extends hB rest fuel seen key next
      (hKnown key List.mem_cons_self) hLess hNext
    obtain ⟨hTail, hStarts⟩ := ih next seen'
      (fun k hk => hKnown k (List.mem_cons_of_mem _ hk)) hRest
    -- what waited at this turn has had its own by the end
    refine ⟨⟨fun _ h => hTail.subset (hStep.subset h), fun h => hTail.nodup (hStep.nodup h),
      ?_, ?_, ?_⟩, ?_⟩
    · intro a ha hFresh
      by_cases hMem : a ∈ next
      · exact hStep.known a hMem hFresh
      · exact hTail.known a ha hMem
    · intro a ha hFresh
      by_cases hMem : a ∈ next
      · exact hStep.defined a hMem hFresh
      · exact hTail.defined a ha hMem
    · intro a ha hFresh b hb
      by_cases hMem : a ∈ next
      · exact Or.inl ((hStep.closed a hMem hFresh b hb).elim (fun h => hTail.subset h)
          (hStarts b))
      · exact hTail.closed a ha hMem b hb
    · intro k hk
      rcases List.mem_cons.mp hk with rfl | hk
      · exact hKey.elim (fun h => hTail.subset h) (hStarts k)
      · exact hStarts k hk

/-! ## Success and dependence -/

/-- A collection of types that all have definitions does not halt. -/
theorem collect_ok (hClosed : ∀ a b, known a → Refers define a b → known b)
    (hDefined : ∀ a, known a → ∃ d, define a = .ok d) (waiting : List TypeKey) :
    ∀ (fuel : Nat) (seen : List TypeKey) (key : TypeKey), known key →
      ∃ seen', collect define waiting fuel seen key = .ok seen' := by
  intro fuel
  induction fuel with
  | zero => exact fun seen _ _ => ⟨seen, rfl⟩
  | succ fuel ih =>
    intro seen key hKnown
    rw [collect]
    split
    · exact ⟨seen, rfl⟩
    · obtain ⟨d, hDef⟩ := hDefined key hKnown
      rw [hDef]
      exact foldlM_ok (fun s k hk => ih s k (hClosed key k hKnown ⟨d, hDef, hk⟩)) _

theorem collectAll_ok (hClosed : ∀ a b, known a → Refers define a b → known b)
    (hDefined : ∀ a, known a → ∃ d, define a = .ok d) (fuel : Nat) (starts : List TypeKey)
    (hKnown : ∀ k ∈ starts, known k) (seen : List TypeKey) :
    ∃ seen', collectAll define fuel seen starts = .ok seen' := by
  induction starts generalizing seen with
  | nil => exact ⟨seen, rfl⟩
  | cons key rest ih =>
    obtain ⟨next, hNext⟩ := collect_ok hClosed hDefined rest fuel seen key
      (hKnown key List.mem_cons_self)
    obtain ⟨seen', h⟩ := ih (fun k hk => hKnown k (List.mem_cons_of_mem _ hk)) next
    exact ⟨seen', bind_eq_ok.mpr ⟨next, hNext, h⟩⟩

/-- A collection looks up known types only. -/
theorem collect_congr (hClosed : ∀ a b, known a → Refers define a b → known b)
    (hSame : ∀ a, known a → define' a = define a) (waiting : List TypeKey) :
    ∀ (fuel : Nat) (seen : List TypeKey) (key : TypeKey), known key →
      collect define' waiting fuel seen key = collect define waiting fuel seen key := by
  intro fuel
  induction fuel with
  | zero => intro _ _ _; rfl
  | succ fuel ih =>
    intro seen key hKnown
    rw [collect, collect, hSame key hKnown]
    split
    · rfl
    · cases hDef : define key with
      | error failure => rfl
      | ok d => exact foldlM_congr (fun s k hk => ih s k (hClosed key k hKnown ⟨d, hDef, hk⟩)) _

theorem collectAll_congr (hClosed : ∀ a b, known a → Refers define a b → known b)
    (hSame : ∀ a, known a → define' a = define a) (fuel : Nat) (starts : List TypeKey)
    (hKnown : ∀ k ∈ starts, known k) (seen : List TypeKey) :
    collectAll define' fuel seen starts = collectAll define fuel seen starts := by
  induction starts generalizing seen with
  | nil => rfl
  | cons key rest ih =>
    rw [collectAll, collectAll,
      collect_congr hClosed hSame rest fuel seen key (hKnown key List.mem_cons_self)]
    cases collect define rest fuel seen key with
    | error halt => rfl
    | ok next => exact ih (fun k hk => hKnown k (List.mem_cons_of_mem _ hk)) next

end

end EntityGraph.Schema
