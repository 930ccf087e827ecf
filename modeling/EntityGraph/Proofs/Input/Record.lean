import EntityGraph.Input.Coercion
import EntityGraph.Input.Record
import EntityGraph.Proofs.Outcome

/-!
# What a record reads

A record that reads a value has applied one change per field: the store of what the field read, or
none if the field was absent and not required.

* `Record.read_eq_ok`: the changes behind a record;
* `readField_required`, `readField_keeps`: the change of one field;
* `listOf_mem`: the items of a list that was read.
-/

namespace EntityGraph

open Outcome

namespace Checked

theorem under_eq_ok {α : Type} {step : Step} {c : Checked α} {a : α} :
    under step c = .ok a ↔ c = .ok a := by
  cases c <;> simp [under]

theorem both_eq_ok {α β : Type} {c : Checked α} {d : Checked β} {p : α × β} :
    both c d = .ok p ↔ c = .ok p.1 ∧ d = .ok p.2 := by
  obtain ⟨a, b⟩ := p
  cases c <;> cases d <;> simp [both]

theorem all_eq_ok {α : Type} {cs : List (Checked α)} {xs : List α} :
    all cs = .ok xs ↔ List.Forall₂ (fun c x => c = .ok x) cs xs := by
  induction cs generalizing xs with
  | nil => simp [all, eq_comm]
  | cons c cs ih =>
    rw [all, map_eq_ok, List.forall₂_cons_left_iff]
    constructor
    · rintro ⟨⟨x, rest⟩, hBoth, rfl⟩
      obtain ⟨hFirst, hRest⟩ := both_eq_ok.mp hBoth
      exact ⟨x, rest, hFirst, ih.mp hRest, rfl⟩
    · rintro ⟨x, rest, hFirst, hRest, rfl⟩
      exact ⟨(x, rest), both_eq_ok.mpr ⟨hFirst, ih.mpr hRest⟩, rfl⟩

/-- What outcomes give together, one of them gives. -/
theorem mem_of_all {α : Type} {cs : List (Checked α)} {xs : List α} (h : all cs = .ok xs) {x : α}
    (hx : x ∈ xs) : .ok x ∈ cs := by
  induction cs generalizing xs with
  | nil =>
    obtain rfl := Except.ok.inj h
    cases hx
  | cons c cs ih =>
    obtain ⟨first, rest, hFirst, hRest, rfl⟩ := List.forall₂_cons_left_iff.mp (all_eq_ok.mp h)
    rcases List.mem_cons.mp hx with rfl | hx
    · exact hFirst ▸ List.mem_cons_self
    · exact List.mem_cons_of_mem _ (ih (all_eq_ok.mpr hRest) hx)

end Checked

namespace Input

variable {α β : Type}

namespace Record

/-- A mapping with a key some of whose code points are no characters. -/
def hasBrokenKey (es : List (Value × Value)) : Bool := es.any fun e => e.1 matches .illFormed _

/-- A mapping without broken keys is read field by field. -/
theorem readEntries_eq (r : Record α) {es : List (Value × Value)} (h : hasBrokenKey es = false) :
    r.readEntries es =
      (Checked.both (Checked.all (r.fields.map fun f => readField f es))
        (checkKeys r.fields es)).map fun p =>
          r.settle (p.1.foldl (fun a change => change a) r.blank) := by
  show (if hasBrokenKey es then _ else _) = _
  rw [h, if_neg Bool.false_ne_true]

/-- A record comes from a mapping by one change per field. -/
theorem read_eq_ok {r : Record α} {v : Value} {a : α} (h : r.read v = .ok a) :
    ∃ es changes, List.Forall₂ (fun f change => readField f es = .ok change) r.fields changes ∧
      a = r.settle (changes.foldl (fun a change => change a) r.blank) := by
  unfold read at h
  split at h
  · rename_i es
    unfold readEntries at h
    split at h
    · cases h
    · obtain ⟨⟨changes, u⟩, hBoth, rfl⟩ := map_eq_ok.mp h
      obtain ⟨hChanges, -⟩ := Checked.both_eq_ok.mp hBoth
      refine ⟨es, changes, ?_, rfl⟩
      rw [← List.forall₂_map_left_iff (f := fun f => readField f es)
        (R := fun c change => c = Except.ok change)]
      exact Checked.all_eq_ok.mp hChanges
  · cases h

variable {name : String} {reading : Value → Checked β} {store : β → α → α} {shown : α → Value}
  {es : List (Value × Value)} {change : α → α}

/-- A required field stores what it reads. -/
theorem readField_required
    (h : readField (.of name true reading store shown) es = .ok change) :
    ∃ v b, reading v = .ok b ∧ change = store b := by
  unfold readField at h
  split at h
  · rename_i v _
    obtain ⟨b, hRead, rfl⟩ := map_eq_ok.mp (Checked.under_eq_ok.mp h)
    exact ⟨v, b, hRead, rfl⟩
  · cases h

/-- A field that is not required keeps what its store keeps. -/
theorem readField_keeps {P : α → Prop}
    (h : readField (.of name false reading store shown) es = .ok change)
    (hStore : ∀ v b a, reading v = .ok b → P a → P (store b a)) {a : α} (ha : P a) :
    P (change a) := by
  unfold readField at h
  split at h
  · rename_i v _
    obtain ⟨b, hRead, rfl⟩ := map_eq_ok.mp (Checked.under_eq_ok.mp h)
    exact hStore v b a hRead ha
  · obtain rfl := Except.ok.inj h
    exact ha

end Record

/-- Every item of a list was read from a value. -/
theorem listOf_mem {item : Value → Checked α} {v : Value} {xs : List α}
    (h : listOf item v = .ok xs) {x : α} (hx : x ∈ xs) : ∃ w, item w = .ok x := by
  have hAll : ∀ ws : List Value,
      Checked.all (ws.mapIdx fun i w => Checked.under (.index i) (item w)) = .ok xs →
        ∃ w, item w = .ok x := by
    intro ws hRead
    obtain ⟨i, hi, hItem⟩ := List.mem_mapIdx.mp (Checked.mem_of_all hRead hx)
    exact ⟨ws[i], Checked.under_eq_ok.mp hItem⟩
  unfold listOf at h
  split at h
  · exact hAll _ h
  · exact hAll _ h
  · exact hAll _ h
  · cases h

end Input

end EntityGraph
