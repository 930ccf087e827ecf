import EntityGraph.Input.Text
import EntityGraph.Proofs.Failing
import EntityGraph.Proofs.Input.Definitions
import EntityGraph.Proofs.Literal.RoundTrip

/-!
# What was read is read back

A reading normalizes: a truth value that was read from a word, a number that was read from a text, a
label, a bag of parameters and a record with all its defaults are rendered as values of their own
types, and these are read as the same thing again.  For records this needs that no field shows what
another one stores, so that a field is read back from the finished record as it was read from its
part of the mapping, and that the default of a field that may be absent passes its own reading.

* `Rereads`: a reading that reads back what it has read;
* `Field.Normal`, `Field.Apart`: what this asks of one field and of two;
* `reread_changes`: the fields of a finished record are read back one after another;
* `Record.Normal.rereads`: a record is read back from its declared fields.
-/

namespace EntityGraph.Input

open Outcome

variable {α β : Type}

/-- What was read is read again from the value that renders it. -/
def Rereads (reading : Value → Checked β) (render : β → Value) : Prop :=
  ∀ v b, reading v = .ok b → reading (render b) = .ok b

/-! ## Plain values -/

/-- A check that gives what it gets, or fails, gives it again. -/
theorem Rereads.checked {reading : Value → Checked β} {render : β → Value}
    (h : Rereads reading render) {check : β → Checked β}
    (hCheck : ∀ b, Ends (fun _ => True) (b = ·) (check b)) :
    Rereads (fun v => reading v >>= check) render := by
  intro v b hRead
  obtain ⟨b', hFirst, hThen⟩ := bind_eq_ok.mp hRead
  obtain rfl := (hCheck b').2 b hThen
  exact bind_eq_ok.mpr ⟨b', h v b' hFirst, hThen⟩

theorem text_rereads : Rereads text .text := fun _ _ _ => rfl

theorem bool_rereads : Rereads bool .bool := fun _ _ _ => rfl

theorem int_rereads : Rereads int .int := fun _ _ _ => rfl

theorem within_rereads (least greatest : Int) : Rereads (within least greatest) .int :=
  int_rereads.checked fun _ => .ite (.error trivial) (.ite (.error trivial) (.ok rfl))

theorem nonEmptyText_rereads : Rereads nonEmptyText .text :=
  text_rereads.checked fun _ => .ite (.error trivial) (.ok rfl)

theorem shortText_rereads (greatest : Nat) : Rereads (shortText greatest) .text :=
  nonEmptyText_rereads.checked fun _ => .ite (.error trivial) (.ok rfl)

theorem identifier_rereads : Rereads identifier .text :=
  text_rereads.checked fun _ => .ite (.ok rfl) (.error trivial)

theorem validatorKind_rereads : Rereads validatorKind .text :=
  nonEmptyText_rereads.checked fun _ => .ite (.ok rfl) (.error trivial)

theorem oneOf_rereads (labels : List String) : Rereads (oneOf labels) .text := by
  intro v s h
  have hLabel : labels.contains s = true := List.contains_iff_mem.mpr (oneOf_eq_ok h)
  show (if labels.contains s then .ok s else Checked.fail (.notOneOf labels)) = Except.ok s
  rw [if_pos hLabel]

/-! ## Lists and bags -/

theorem listOf_rereads {item : Value → Checked β} {render : β → Value} (h : Rereads item render) :
    Rereads (listOf item) fun xs => .list (xs.map render) := by
  intro v xs hRead
  apply Checked.all_eq_ok.mpr
  rw [List.forall₂_iff_get]
  refine ⟨by simp, ?_⟩
  intro i hi hi'
  obtain ⟨w, hItem⟩ := listOf_mem hRead (List.getElem_mem hi')
  simpa [Checked.under_eq_ok] using h w _ hItem

/-- The entries of a bag: their keys are texts, and none equals an earlier one. -/
structure IsBag (es : List (Value × Value)) : Prop where
  texts : ∀ key ∈ es.map (·.1), textKey key = .ok key
  distinct : (es.map (·.1)).Pairwise fun key key' => key.same key' = false

/-- What is put in a mapping goes under a key that is there already or under a new one. -/
theorem put_cases (key v : Value) (es : List (Value × Value)) :
    (Value.put key v es).map (·.1) = es.map (·.1) ∨
      (∀ e ∈ es, e.1.same key = false) ∧ Value.put key v es = es ++ [(key, v)] := by
  induction es with
  | nil => exact .inr ⟨by simp, rfl⟩
  | cons e es ih =>
    by_cases hSame : e.1.same key = true
    · left
      rw [Value.put, if_pos hSame]
      rfl
    · rw [Value.put, if_neg hSame]
      rcases ih with hKeys | ⟨hFresh, hLast⟩
      · left
        rw [List.map_cons, List.map_cons, hKeys]
      · right
        rw [hLast]
        exact ⟨List.forall_mem_cons.mpr ⟨Bool.not_eq_true _ ▸ hSame, hFresh⟩, rfl⟩

namespace IsBag

variable {es : List (Value × Value)}

theorem put (h : IsBag es) {key : Value} (hKey : textKey key = .ok key) (v : Value) :
    IsBag (Value.put key v es) := by
  rcases put_cases key v es with hKeys | ⟨hFresh, hLast⟩
  · constructor
    · rw [hKeys]
      exact h.texts
    · rw [hKeys]
      exact h.distinct
  · rw [hLast]
    constructor
    · intro key' hMem
      rw [List.map_append, List.mem_append] at hMem
      rcases hMem with hOld | hNew
      · exact h.texts key' hOld
      · rwa [List.mem_singleton.mp hNew]
    · rw [List.map_append, List.pairwise_append]
      refine ⟨h.distinct, List.pairwise_singleton _ _, ?_⟩
      intro key' hOld key'' hNew
      obtain ⟨e, he, rfl⟩ := List.mem_map.mp hOld
      obtain rfl := List.mem_singleton.mp hNew
      exact hFresh e he

/-- Entries that are put one after another make a bag. -/
theorem foldl (h : IsBag es) {news : List (Value × Value)}
    (hKeys : ∀ e ∈ news, textKey e.1 = .ok e.1) :
    IsBag (news.foldl (fun es e => Value.put e.1 e.2 es) es) := by
  induction news generalizing es with
  | nil => exact h
  | cons e news ih =>
    obtain ⟨hFirst, hRest⟩ := List.forall_mem_cons.mp hKeys
    exact ih (h.put hFirst e.2) hRest

end IsBag

theorem textKey_rereads : Rereads textKey id := by
  intro v key h
  unfold textKey at h
  split at h
  · obtain rfl := Except.ok.inj h
    rfl
  · obtain ⟨s, -, rfl⟩ := map_eq_ok.mp h
    rfl

/-- A bag that was read is one. -/
theorem bag_isBag {v : Value} {es : List (Value × Value)} (h : bag v = .ok es) : IsBag es := by
  unfold bag at h
  split at h
  · rename_i given
    obtain ⟨entries, hEntries, rfl⟩ := map_eq_ok.mp h
    apply IsBag.foldl ⟨by simp, List.Pairwise.nil⟩
    intro e he
    obtain ⟨g, -, hRead⟩ := List.mem_map.mp (Checked.mem_of_all hEntries he)
    obtain ⟨key, hKey, rfl⟩ := map_eq_ok.mp (Checked.under_eq_ok.mp (Checked.under_eq_ok.mp hRead))
    exact textKey_rereads _ key hKey
  · cases h

theorem bag_rereads : Rereads bag .map := by
  intro v es h
  have hBag := bag_isBag h
  have hEntries : Checked.all (es.map fun e => Checked.under (.ofKey e.1)
      (Checked.under (.name "[key]") ((textKey e.1).map fun key => (key, e.2)))) = .ok es := by
    rw [Checked.all_eq_ok, List.forall₂_map_left_iff, List.forall₂_same]
    intro e he
    simp only [Checked.under_eq_ok]
    exact map_eq_ok.mpr ⟨e.1, hBag.texts e.1 (List.mem_map_of_mem he), rfl⟩
  apply map_eq_ok.mpr
  exact ⟨es, hEntries, Value.foldl_put_append [] hBag.distinct⟩

/-! ## Fields -/

namespace Field

/-- A field that is read back from every record that it has changed, and from a record with nothing
in it if it may be absent; the latter changes nothing. -/
structure Normal (start : α) (f : Field α) : Prop where
  again : ∀ v change, f.reading v = .ok change → ∀ a, f.reading (f.shown (change a)) = .ok change
  default : f.required = false → ∃ change, f.reading (f.shown start) = .ok change ∧
    change start = start

/-- Two fields neither of which shows what the other one stores. -/
structure Apart (f g : Field α) : Prop where
  left : ∀ v change, f.reading v = .ok change → ∀ a, g.shown (change a) = g.shown a
  right : ∀ v change, g.reading v = .ok change → ∀ a, f.shown (change a) = f.shown a
  commute : ∀ v w change change', f.reading v = .ok change → g.reading w = .ok change' →
    ∀ a, change (change' a) = change' (change a)

section

variable {name : String} {required : Bool} {reading : Value → Checked β} {store : β → α → α}
  {shown : α → Value} {render : β → Value} {start : α}

/-- A field that stores what it reads and shows it as it is rendered. -/
theorem of_normal (h : Rereads reading render) (hShown : ∀ b a, shown (store b a) = render b)
    (hDefault : required = false → ∃ b, reading (shown start) = .ok b ∧ store b start = start) :
    Normal start (of name required reading store shown) := by
  constructor
  · intro v change hRead a
    obtain ⟨b, hValue, rfl⟩ := map_eq_ok.mp hRead
    apply map_eq_ok.mpr
    refine ⟨b, ?_, rfl⟩
    show reading (shown (store b a)) = .ok b
    rw [hShown]
    exact h v b hValue
  · intro hOptional
    obtain ⟨b, hValue, hStore⟩ := hDefault hOptional
    exact ⟨store b, map_eq_ok.mpr ⟨b, hValue, rfl⟩, hStore⟩

/-- A required field has no default to pass. -/
theorem required_normal (h : Rereads reading render)
    (hShown : ∀ b a, shown (store b a) = render b) :
    Normal start (of name true reading store shown) :=
  of_normal h hShown fun hOptional => absurd hOptional.symm Bool.false_ne_true

theorem of_apart {name' : String} {required' : Bool} {γ : Type} {reading' : Value → Checked γ}
    {store' : γ → α → α} {shown' : α → Value} (hLeft : ∀ b a, shown' (store b a) = shown' a)
    (hRight : ∀ c a, shown (store' c a) = shown a)
    (hCommute : ∀ b c a, store b (store' c a) = store' c (store b a)) :
    Apart (of name required reading store shown) (of name' required' reading' store' shown') := by
  constructor
  · intro v change hRead a
    obtain ⟨b, -, rfl⟩ := map_eq_ok.mp hRead
    exact hLeft b a
  · intro v change hRead a
    obtain ⟨c, -, rfl⟩ := map_eq_ok.mp hRead
    exact hRight c a
  · intro v w change change' hRead hRead' a
    obtain ⟨b, -, rfl⟩ := map_eq_ok.mp hRead
    obtain ⟨c, -, rfl⟩ := map_eq_ok.mp hRead'
    exact hCommute b c a

end

end Field

/-! ## Records -/

namespace Record

variable {es : List (Value × Value)} {f : Field α} {fs : List (Field α)} {change : α → α}
  {changes : List (α → α)}

/-- A record with several changes, one after another. -/
abbrev changed (changes : List (α → α)) (a : α) : α := changes.foldl (fun a change => change a) a

theorem readField_cases (h : readField f es = .ok change) :
    (∃ v, f.reading v = .ok change) ∨ f.required = false ∧ change = id := by
  unfold readField at h
  split at h
  · rename_i v _
    exact .inl ⟨v, Checked.under_eq_ok.mp h⟩
  · split at h
    · cases h
    · rename_i hOptional
      exact .inr ⟨Bool.not_eq_true _ ▸ hOptional, (Except.ok.inj h).symm⟩

/-- What a field shows stays when fields apart from it are read. -/
theorem shown_changed (hApart : ∀ g ∈ fs, f.Apart g)
    (h : List.Forall₂ (fun f change => readField f es = .ok change) fs changes) (a : α) :
    f.shown (changed changes a) = f.shown a := by
  induction h generalizing a with
  | nil => rfl
  | @cons g change fs changes hRead _ ih =>
    obtain ⟨hFirst, hRest⟩ := List.forall_mem_cons.mp hApart
    refine (ih hRest (change a)).trans ?_
    rcases readField_cases hRead with ⟨v, hValue⟩ | ⟨-, rfl⟩
    · exact hFirst.right v change hValue a
    · rfl

/-- A field is normal from a changed record on if it was before. -/
theorem normal_change {g : Field α} {start : α} (hApart : f.Apart g) (hNormal : g.Normal start)
    (h : readField f es = .ok change) : g.Normal (change start) := by
  rcases readField_cases h with ⟨v, hValue⟩ | ⟨-, rfl⟩
  · refine ⟨hNormal.again, ?_⟩
    intro hOptional
    obtain ⟨change', hRead, hSame⟩ := hNormal.default hOptional
    refine ⟨change', ?_, ?_⟩
    · rw [hApart.left v change hValue]
      exact hRead
    · have hCommute := hApart.commute v _ change change' hValue hRead start
      rw [hSame] at hCommute
      exact hCommute.symm
  · exact hNormal

/-- The fields of a finished record are read back from what they show of it, and make the same
record again.  The induction is on the fields that are still to be read. -/
theorem reread_changes {start : α} (hApart : fs.Pairwise Field.Apart)
    (hNormal : ∀ f ∈ fs, f.Normal start)
    (h : List.Forall₂ (fun f change => readField f es = .ok change) fs changes) :
    ∃ again, List.Forall₂
        (fun f change => f.reading (f.shown (changed changes start)) = .ok change) fs again ∧
      changed again start = changed changes start := by
  induction h generalizing start with
  | nil => exact ⟨[], .nil, rfl⟩
  | @cons f change fs changes hRead hRest ih =>
    obtain ⟨hFirst, hOthers⟩ := List.pairwise_cons.mp hApart
    obtain ⟨hHead, hTail⟩ := List.forall_mem_cons.mp hNormal
    obtain ⟨again, hAgain, hSame⟩ := ih hOthers
      fun g hg => normal_change (hFirst g hg) (hTail g hg) hRead
    have hShown : f.shown (changed (change :: changes) start) = f.shown (change start) :=
      shown_changed hFirst hRest (change start)
    rcases readField_cases hRead with ⟨v, hValue⟩ | ⟨hOptional, rfl⟩
    · refine ⟨change :: again, .cons ?_ hAgain, hSame⟩
      rw [hShown]
      exact hHead.again v change hValue start
    · -- An absent field shows its default, which it reads without changing anything.
      obtain ⟨change', hDefault, hKept⟩ := hHead.default hOptional
      refine ⟨change' :: again, .cons ?_ hAgain, ?_⟩
      · rw [hShown]
        exact hDefault
      · show changed again (change' start) = _
        rw [hKept]
        exact hSame

/-- Under the name of a field, a record as a mapping has what the field shows. -/
theorem get?_declared (hNames : (fs.map (·.name)).Nodup) (hf : f ∈ fs) (a : α) :
    Value.get? f.name (fs.map fun f => (.text f.name, f.shown a)) = some (f.shown a) := by
  induction fs with
  | nil => cases hf
  | cons g fs ih =>
    rw [List.map_cons, List.nodup_cons] at hNames
    have hKey : ∀ name : String, (Value.text g.name == .text name) = (g.name == name) := fun _ => rfl
    rw [List.map_cons, Value.get?, hKey]
    rcases List.mem_cons.mp hf with rfl | hRest
    · rw [beq_self_eq_true, if_pos rfl]
    · have hOther : g.name ≠ f.name := by
        intro hSame
        exact hNames.1 (hSame ▸ List.mem_map_of_mem hRest)
      rw [beq_eq_false_iff_ne.mpr hOther, if_neg Bool.false_ne_true, ih hNames.2 hRest]

/-- A record type whose records are read back. -/
structure Normal (r : Record α) : Prop where
  names : (r.fields.map (·.name)).Nodup
  fields : ∀ f ∈ r.fields, f.Normal r.blank
  apart : r.fields.Pairwise Field.Apart
  settle : ∀ a, r.settle a = a

/-- The declared fields of a record are read if each of them is, and no key is unknown. -/
theorem read_dumpDeclared {r : Record α} (hNames : (r.fields.map (·.name)).Nodup) {a : α}
    (h : List.Forall₂ (fun f change => f.reading (f.shown a) = .ok change) r.fields changes) :
    r.read (r.dumpDeclared a) = .ok (r.settle (changed changes r.blank)) := by
  let shown : List (Value × Value) := r.fields.map fun f => (.text f.name, f.shown a)
  have hEntries : r.dumpDeclared a = .map shown := by
    rw [dumpDeclared, Value.record, declared, List.map_map]
    rfl
  have hTexts : hasBrokenKey shown = false := by
    simp [hasBrokenKey, shown]
  have hFields : ∀ f ∈ r.fields,
      readField f shown = Checked.under (.name f.name) (f.reading (f.shown a)) := by
    intro f hf
    rw [readField, get?_declared hNames hf]
  have hChanges : Checked.all (r.fields.map fun f => readField f shown) = .ok changes := by
    rw [List.map_congr_left hFields, Checked.all_eq_ok, List.forall₂_map_left_iff]
    exact h.imp fun _ _ hRead => Checked.under_eq_ok.mpr hRead
  have hKeys : shown.filterMap (fun e => keyViolation? r.fields e.1) = [] := by
    rw [List.filterMap_eq_nil_iff]
    intro e he
    obtain ⟨f, hf, rfl⟩ := List.mem_map.mp he
    have hKnown : (r.fields.any fun g => g.name == f.name) = true :=
      List.any_eq_true.mpr ⟨f, hf, beq_self_eq_true _⟩
    show (if _ then none else _) = none
    rw [if_pos hKnown]
  rw [hEntries, read, readEntries_eq r hTexts, checkKeys, hKeys]
  apply map_eq_ok.mpr
  exact ⟨(changes, ()), Checked.both_eq_ok.mpr ⟨hChanges, rfl⟩, rfl⟩

/-- A record that was read is read back from its declared fields. -/
theorem Normal.rereads {r : Record α} (h : r.Normal) : Rereads r.read r.dumpDeclared := by
  intro v a hRead
  obtain ⟨es, changes, hChanges, rfl⟩ := read_eq_ok hRead
  obtain ⟨again, hAgain, hSame⟩ := reread_changes h.apart h.fields hChanges
  rw [h.settle, read_dumpDeclared h.names hAgain, h.settle, hSame]

end Record

end EntityGraph.Input
