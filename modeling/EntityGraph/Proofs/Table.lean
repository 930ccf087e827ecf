import EntityGraph.Table
import EntityGraph.Value
import Mathlib.Data.List.Induction
import Mathlib.Data.List.Nodup
import Mathlib.Data.List.Perm.Subperm

/-!
# Writes to tables

What a table holds after any number of writes.  Every key stands in it once, in the place of its
first write and with the value of its last.

* `length_firstOccurrences_lt_iff`: what a list loses when only first occurrences stay;
* `lastNamed`: the last item of a list that has a name;
* `nodup_keys_putAll`, `mem_keys_putAll`: the keys;
* `keys_putAll_empty`: the keys of a new table are in the order of their first writes;
* `mem_putAll`: every entry was there before or was written;
* `IsLastWrite`, `get?_putAll_eq_some`: the value of a key is that of its last write;
* `putAll_eq_append`: writes of new and distinct keys go to the end as they are;
* `get?_putAll_named`, `get?_putAll_of_nodup`: the value of a key in a table of items by name, and in
  a table that was written over another;
* `putAll_mapValues`: values may be changed before or after the writes.
-/

namespace EntityGraph

/-! ## First occurrences -/

theorem firstOccurrences_append (xs : List String) (x : String) :
    firstOccurrences (xs ++ [x]) =
      if x ∈ firstOccurrences xs then firstOccurrences xs else firstOccurrences xs ++ [x] := by
  simp [firstOccurrences]

theorem mem_firstOccurrences {xs : List String} {x : String} :
    x ∈ firstOccurrences xs ↔ x ∈ xs := by
  induction xs using List.reverseRecOn with
  | nil => exact Iff.rfl
  | append_singleton xs y ih =>
    rw [firstOccurrences_append, List.mem_append, List.mem_singleton, ← ih]
    split
    · rename_i hSeen
      exact ⟨Or.inl, fun h => h.elim id fun hEq => hEq ▸ hSeen⟩
    · rw [List.mem_append, List.mem_singleton]

theorem nodup_firstOccurrences (xs : List String) : (firstOccurrences xs).Nodup := by
  induction xs using List.reverseRecOn with
  | nil => exact List.nodup_nil
  | append_singleton xs x ih =>
    rw [firstOccurrences_append]
    split
    · exact ih
    · rename_i hNew
      rw [← List.concat_eq_append]
      exact ih.concat hNew

/-- There are fewer first occurrences than items exactly if an item occurs again. -/
theorem length_firstOccurrences_lt_iff {xs : List String} :
    (firstOccurrences xs).length < xs.length ↔ ¬ xs.Nodup := by
  have hFirst : (firstOccurrences xs).Subperm xs :=
    (nodup_firstOccurrences xs).subperm fun _ h => mem_firstOccurrences.mp h
  constructor
  · intro hFewer hNodup
    have hAll : xs.Subperm (firstOccurrences xs) :=
      hNodup.subperm fun _ h => mem_firstOccurrences.mpr h
    exact absurd hFewer (Nat.not_lt.mpr hAll.length_le)
  · intro hAgain
    by_contra hAll
    have hPerm := hFirst.perm_of_length_le (Nat.not_lt.mp hAll)
    exact hAgain (hPerm.nodup_iff.mp (nodup_firstOccurrences xs))

/-! ## Last items -/

section

variable {α : Type}

/-- The last item of a list that has a name. -/
def lastNamed (nameOf : α → String) (xs : List α) (name : String) : Option α :=
  (xs.filter fun x => nameOf x = name).getLast?

theorem mem_of_lastNamed {nameOf : α → String} {xs : List α} {name : String} {x : α}
    (h : lastNamed nameOf xs name = some x) : x ∈ xs ∧ nameOf x = name := by
  obtain ⟨hMem, hName⟩ := List.mem_filter.mp (List.mem_of_getLast? h)
  exact ⟨hMem, of_decide_eq_true hName⟩

theorem lastNamed_eq_none {nameOf : α → String} {xs : List α} {name : String} :
    lastNamed nameOf xs name = none ↔ name ∉ xs.map nameOf := by
  simp [lastNamed]

theorem lastNamed_cons_of_eq {nameOf : α → String} {x : α} {name : String} (h : nameOf x = name)
    (xs : List α) :
    lastNamed nameOf (x :: xs) name = some ((lastNamed nameOf xs name).getD x) := by
  rw [lastNamed, List.filter_cons_of_pos (by simpa using h), List.getLast?_cons]
  rfl

theorem lastNamed_map {β : Type} (nameOf : α → String) (f : β → α) (xs : List β) (name : String) :
    lastNamed nameOf (xs.map f) name = (lastNamed (nameOf ∘ f) xs name).map f := by
  rw [lastNamed, List.filter_map, List.getLast?_map]
  rfl

end

namespace Table

variable {α β : Type}

/-- A table with every value changed. -/
def mapValues (f : α → β) (t : Table α) : Table β := t.map fun e => (e.1, f e.2)

@[simp] theorem keys_nil : keys ([] : Table α) = [] := rfl

@[simp] theorem keys_cons (e : String × α) (t : Table α) : keys (e :: t) = e.1 :: keys t := rfl

@[simp] theorem keys_mapValues (f : α → β) (t : Table α) : (t.mapValues f).keys = t.keys := by
  simp [mapValues, keys]

@[simp] theorem putAll_nil (t : Table α) : t.putAll [] = t := rfl

@[simp] theorem putAll_cons (t : Table α) (w : String × α) (ws : List (String × α)) :
    t.putAll (w :: ws) = (t.put w.1 w.2).putAll ws := rfl

/-! ## One write -/

theorem keys_put (t : Table α) (key : String) (value : α) :
    (t.put key value).keys = if key ∈ t.keys then t.keys else t.keys ++ [key] := by
  induction t with
  | nil => rfl
  | cons e t ih =>
    obtain ⟨k, v⟩ := e
    by_cases h : k = key
    · simp [put, h]
    · have h' : ¬ key = k := fun he => h he.symm
      simp only [put, h, if_false, keys_cons, ih, List.mem_cons, h', false_or]
      split <;> simp

theorem mem_keys_put {t : Table α} {key k : String} {value : α} :
    k ∈ (t.put key value).keys ↔ k = key ∨ k ∈ t.keys := by
  rw [keys_put]
  split
  · rename_i h
    exact ⟨Or.inr, fun hk => hk.elim (fun he => he ▸ h) id⟩
  · simp [or_comm]

theorem nodup_keys_put {t : Table α} (h : t.keys.Nodup) (key : String) (value : α) :
    (t.put key value).keys.Nodup := by
  rw [keys_put]
  split
  · exact h
  · rename_i hKey
    exact List.nodup_append.mpr ⟨h, List.nodup_singleton _, by
      intro a ha b hb
      obtain rfl := List.mem_singleton.mp hb
      exact fun he => hKey (he ▸ ha)⟩

theorem mem_put {t : Table α} {key k : String} {value v : α} (h : (k, v) ∈ t.put key value) :
    (k, v) ∈ t ∨ (k = key ∧ v = value) := by
  induction t with
  | nil => simpa [put] using h
  | cons e t ih =>
    obtain ⟨k', v'⟩ := e
    by_cases he : k' = key
    · simp only [put, he, if_true, List.mem_cons, Prod.mk.injEq] at h
      rcases h with ⟨rfl, rfl⟩ | h
      · exact Or.inr ⟨rfl, rfl⟩
      · exact Or.inl (List.mem_cons_of_mem _ h)
    · simp only [put, he, if_false, List.mem_cons] at h
      rcases h with h | h
      · exact Or.inl (h ▸ List.mem_cons_self)
      · exact (ih h).imp_left (List.mem_cons_of_mem _)

theorem get?_put (t : Table α) (key k : String) (value : α) :
    (t.put key value).get? k = if key = k then some value else t.get? k := by
  induction t with
  | nil => rfl
  | cons e t ih =>
    obtain ⟨k', v'⟩ := e
    by_cases he : k' = key
    · subst he
      by_cases hk : k' = k <;> simp [put, get?, hk]
    · by_cases hk : k' = k
      · subst hk
        have h' : ¬ key = k' := fun h => he h.symm
        simp [put, get?, he, h']
      · simp [put, get?, he, hk, ih]

theorem put_eq_append {t : Table α} {key : String} (h : key ∉ t.keys) (value : α) :
    t.put key value = t ++ [(key, value)] := by
  induction t with
  | nil => rfl
  | cons e t ih =>
    obtain ⟨k, v⟩ := e
    simp only [keys_cons, List.mem_cons, not_or] at h
    have hk : ¬ k = key := fun he => h.1 he.symm
    simp [put, hk, ih h.2]

theorem put_mapValues (f : α → β) (t : Table α) (key : String) (value : α) :
    (t.mapValues f).put key (f value) = (t.put key value).mapValues f := by
  induction t with
  | nil => rfl
  | cons e t ih =>
    obtain ⟨k, v⟩ := e
    by_cases h : k = key
    · simp [put, mapValues, h]
    · simpa [put, mapValues, h] using ih

/-! ## Reading -/

theorem mem_of_get? {t : Table α} {key : String} {value : α} (h : t.get? key = some value) :
    (key, value) ∈ t := by
  induction t with
  | nil => simp [get?] at h
  | cons e t ih =>
    obtain ⟨k, v⟩ := e
    by_cases hk : k = key
    · simp only [get?, hk, if_true, Option.some.injEq] at h
      simp [hk, h]
    · simp only [get?, hk, if_false] at h
      exact List.mem_cons_of_mem _ (ih h)

theorem mem_keys_of_mem {t : Table α} {e : String × α} (h : e ∈ t) : e.1 ∈ t.keys :=
  List.mem_map_of_mem h

theorem get?_eq_some_iff {t : Table α} (h : t.keys.Nodup) {key : String} {value : α} :
    t.get? key = some value ↔ (key, value) ∈ t := by
  refine ⟨mem_of_get?, fun hMem => ?_⟩
  induction t with
  | nil => simp at hMem
  | cons e t ih =>
    obtain ⟨k, v⟩ := e
    obtain ⟨hFresh, hRest⟩ := List.nodup_cons.mp h
    rcases List.mem_cons.mp hMem with he | hMem
    · obtain ⟨rfl, rfl⟩ := Prod.mk.inj he
      simp [get?]
    · have hk : ¬ k = key := by
        rintro rfl
        exact hFresh (List.mem_map.mpr ⟨_, hMem, rfl⟩)
      simpa [get?, hk] using ih hRest hMem

theorem get?_isSome_iff {t : Table α} {key : String} :
    (∃ value, t.get? key = some value) ↔ key ∈ t.keys := by
  induction t with
  | nil => simp [get?]
  | cons e t ih =>
    obtain ⟨k, v⟩ := e
    by_cases hk : k = key
    · simp [get?, hk]
    · have hk' : ¬ key = k := fun he => hk he.symm
      simp [get?, hk, hk', ih]

theorem get?_eq_none_iff {t : Table α} {key : String} : t.get? key = none ↔ key ∉ t.keys := by
  rw [← get?_isSome_iff, ← Option.isSome_iff_exists, Option.not_isSome_iff_eq_none]

theorem get?_mapValues (f : α → β) (t : Table α) (key : String) :
    (t.mapValues f).get? key = (t.get? key).map f := by
  induction t with
  | nil => rfl
  | cons e t ih =>
    obtain ⟨k, v⟩ := e
    rw [mapValues] at ih ⊢
    by_cases h : k = key <;> simp [get?, h, ih]

/-! ## Many writes -/

theorem mem_keys_putAll {t : Table α} {ws : List (String × α)} {k : String} :
    k ∈ (t.putAll ws).keys ↔ k ∈ t.keys ∨ k ∈ ws.map (·.1) := by
  induction ws generalizing t with
  | nil => simp
  | cons w ws ih =>
    rw [putAll_cons, ih, mem_keys_put, List.map_cons, List.mem_cons]
    tauto

theorem nodup_keys_putAll {t : Table α} (h : t.keys.Nodup) (ws : List (String × α)) :
    (t.putAll ws).keys.Nodup := by
  induction ws generalizing t with
  | nil => exact h
  | cons w ws ih => exact ih (nodup_keys_put h w.1 w.2)

theorem putAll_append (t : Table α) (ws ws' : List (String × α)) :
    t.putAll (ws ++ ws') = (t.putAll ws).putAll ws' :=
  List.foldl_append

/-- The keys of a table that is written from nothing. -/
theorem keys_putAll_empty (ws : List (String × α)) :
    (putAll [] ws).keys = firstOccurrences (ws.map (·.1)) := by
  induction ws using List.reverseRecOn with
  | nil => rfl
  | append_singleton ws w ih =>
    rw [putAll_append, putAll_cons, putAll_nil, keys_put, ih, List.map_append,
      List.map_singleton, firstOccurrences_append]

theorem mem_putAll {t : Table α} {ws : List (String × α)} {e : String × α}
    (h : e ∈ t.putAll ws) : e ∈ t ∨ e ∈ ws := by
  induction ws generalizing t with
  | nil => exact Or.inl h
  | cons w ws ih =>
    rcases ih h with h | h
    · rcases mem_put h with h | ⟨hk, hv⟩
      · exact Or.inl h
      · exact Or.inr (List.mem_cons.mpr (Or.inl (Prod.ext hk hv)))
    · exact Or.inr (List.mem_cons_of_mem _ h)

theorem putAll_eq_append {t : Table α} {ws : List (String × α)}
    (h : (t.keys ++ ws.map (·.1)).Nodup) : t.putAll ws = t ++ ws := by
  induction ws generalizing t with
  | nil => simp
  | cons w ws ih =>
    have hPut : (t.keys ++ [w.1] ++ ws.map (·.1)).Nodup := by simpa using h
    have hFresh : w.1 ∉ t.keys := by
      intro hMem
      exact (List.nodup_append.mp (List.nodup_append.mp hPut).1).2.2 w.1 hMem w.1 (by simp) rfl
    have hKeys : keys (t ++ [(w.1, w.2)]) = t.keys ++ [w.1] := by simp [keys]
    rw [putAll_cons, put_eq_append hFresh, ih (hKeys ▸ hPut), List.append_assoc]
    rfl

theorem putAll_mapValues (f : α → β) (t : Table α) (ws : List (String × α)) :
    (t.mapValues f).putAll (ws.map fun w => (w.1, f w.2)) = (t.putAll ws).mapValues f := by
  induction ws generalizing t with
  | nil => rfl
  | cons w ws ih => rw [List.map_cons, putAll_cons, put_mapValues, ih, putAll_cons]

/-- A table that is written over another comes first. -/
theorem get?_putAll_of_nodup {ws : Table α} (h : ws.keys.Nodup) (t : Table α) (key : String) :
    (t.putAll ws).get? key = (ws.get? key).or (t.get? key) := by
  induction ws generalizing t with
  | nil => rfl
  | cons w ws ih =>
    obtain ⟨k, v⟩ := w
    obtain ⟨hFresh, hRest⟩ := List.nodup_cons.mp h
    rw [putAll_cons, ih hRest, get?_put]
    by_cases hKey : k = key
    · subst hKey
      have hNone : get? ws k = none := get?_eq_none_iff.mpr hFresh
      simp [get?, hNone]
    · simp [get?, hKey]

/-- In a table of the items of a list by name, the last item of a name counts. -/
theorem get?_putAll_named (nameOf : α → String) (xs : List α) (name : String) :
    (putAll [] (xs.map fun x => (nameOf x, x))).get? name = lastNamed nameOf xs name := by
  induction xs using List.reverseRecOn with
  | nil => rfl
  | append_singleton xs x ih =>
    rw [List.map_append, putAll_append, List.map_singleton, putAll_cons, putAll_nil, get?_put, ih,
      lastNamed, lastNamed, List.filter_append]
    by_cases hName : nameOf x = name <;> simp [hName]

/-! ## Last writes -/

/-- A write that no later write to its key replaces. -/
def IsLastWrite (ws : List (String × α)) (w : String × α) : Prop :=
  ∃ before later, ws = before ++ w :: later ∧ ∀ w' ∈ later, w'.1 ≠ w.1

theorem isLastWrite_cons {w e : String × α} {ws : List (String × α)} :
    IsLastWrite (w :: ws) e ↔ IsLastWrite ws e ∨ (w = e ∧ ∀ w' ∈ ws, w'.1 ≠ e.1) := by
  constructor
  · rintro ⟨before, later, hWrites, hLast⟩
    cases before with
    | nil =>
      obtain ⟨rfl, rfl⟩ := List.cons.inj hWrites
      exact Or.inr ⟨rfl, hLast⟩
    | cons first before =>
      obtain ⟨-, rfl⟩ := List.cons.inj hWrites
      exact Or.inl ⟨before, later, rfl, hLast⟩
  · rintro (⟨before, later, rfl, hLast⟩ | ⟨rfl, hLast⟩)
    · exact ⟨w :: before, later, rfl, hLast⟩
    · exact ⟨[], ws, rfl, hLast⟩

/-- The value of a key is that of its last write. -/
theorem get?_putAll_eq_some {t : Table α} {ws : List (String × α)} {e : String × α} :
    (t.putAll ws).get? e.1 = some e.2 ↔
      IsLastWrite ws e ∨ (t.get? e.1 = some e.2 ∧ ∀ w ∈ ws, w.1 ≠ e.1) := by
  induction ws generalizing t with
  | nil => simp [IsLastWrite]
  | cons w ws ih =>
    rw [putAll_cons, ih, isLastWrite_cons, get?_put, List.forall_mem_cons, or_assoc]
    refine or_congr_right ?_
    by_cases hKey : w.1 = e.1
    · have hEntry : w = e ↔ w.2 = e.2 := ⟨fun h => h ▸ rfl, fun h => Prod.ext hKey h⟩
      simp [hKey, hEntry]
    · have hEntry : w ≠ e := fun h => hKey (h ▸ rfl)
      simp [hKey, hEntry]

/-- Where the last write of a key comes from if every item of a list writes at most once. -/
theorem isLastWrite_filterMap {f : β → Option (String × α)} {xs : List β} {w : String × α} :
    IsLastWrite (xs.filterMap f) w ↔ ∃ before x later, xs = before ++ x :: later ∧
      f x = some w ∧ ∀ y ∈ later, ∀ w', f y = some w' → w'.1 ≠ w.1 := by
  constructor
  · rintro ⟨before, later, hWrites, hLast⟩
    obtain ⟨first, rest, rfl, -, hRest⟩ := List.filterMap_eq_append_iff.mp hWrites
    obtain ⟨skipped, x, rest', rfl, -, hWrite, rfl⟩ := List.filterMap_eq_cons_iff.mp hRest
    refine ⟨first ++ skipped, x, rest', by simp, hWrite, fun y hy w' hw' => ?_⟩
    exact hLast w' (List.mem_filterMap.mpr ⟨y, hy, hw'⟩)
  · rintro ⟨before, x, later, rfl, hWrite, hLast⟩
    refine ⟨before.filterMap f, later.filterMap f, by simp [hWrite], fun w' hw' => ?_⟩
    obtain ⟨y, hy, hw'⟩ := List.mem_filterMap.mp hw'
    exact hLast y hy w' hw'

end Table

end EntityGraph
