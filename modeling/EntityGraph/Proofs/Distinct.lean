import EntityGraph.Value
import Mathlib.Data.List.Induction

/-!
# Distinct values

A list without repetitions keeps the first of its items that are the same, in their order.  What
counts as the same is equality by meaning: the values `1`, `1.0` and `true` are one item, and so are
tuples of them.  Such an equality can be told by what the values contain, so it is an equivalence on
all values that may be members of a set, but for the number that is not equal to itself.

* `firsts`: the first occurrences in a list, by their places, and `firsts_append`: one more item;
* `EquivalenceOn`, `KeepsFirsts`: what makes an equality, and what a list without repetitions keeps;
* `Value.IsMember`, `Value.content`: members of a set, and what they contain;
* `Value.same_iff`: members are the same exactly if they contain the same;
* `Value.distinct_eq`: the values that are left are the first occurrences.
-/

namespace EntityGraph

/-! ## First occurrences -/

/-- The items of a list that are the same as none before them. -/
def firsts {α : Type} (same : α → α → Bool) (xs : List α) : List α :=
  (xs.zipIdx.filter fun e => !(xs.take e.2).any (same · e.1)).map (·.1)

/-- A test that is an equivalence on the items of a kind. -/
structure EquivalenceOn {α : Type} (kind : α → Prop) (same : α → α → Bool) : Prop where
  refl : ∀ {x}, kind x → same x x = true
  symm : ∀ {x y}, kind x → kind y → same x y = true → same y x = true
  trans : ∀ {x y z}, kind x → kind y → kind z → same x y = true → same y z = true →
    same x z = true

/-- A list keeps the first occurrences of another one: they stand in it in their order, no two of
them are the same, and every item is the same as one of them. -/
structure KeepsFirsts {α : Type} (same : α → α → Bool) (xs ys : List α) : Prop where
  eq_firsts : ys = firsts same xs
  sublist : ys.Sublist xs
  apart : ys.Pairwise fun x y => same x y = false
  complete : ∀ x ∈ xs, ∃ y ∈ ys, same y x = true

section

variable {α : Type} {same : α → α → Bool} {kind : α → Prop} {xs : List α} {x : α}

/-- One more item is kept unless it is the same as one before it. -/
theorem firsts_append (xs : List α) (x : α) : firsts same (xs ++ [x]) =
    if xs.any (same · x) then firsts same xs else firsts same xs ++ [x] := by
  have hBefore : (xs.zipIdx.filter fun e => !((xs ++ [x]).take e.2).any (same · e.1)) =
      xs.zipIdx.filter fun e => !(xs.take e.2).any (same · e.1) := by
    refine List.filter_congr fun e he => ?_
    have hPlace : e.2 < xs.length + 0 := List.snd_lt_of_mem_zipIdx he
    rw [List.take_append_of_le_length (Nat.le_of_lt hPlace)]
  rw [firsts, List.zipIdx_append, List.filter_append, hBefore]
  cases hSeen : xs.any (same · x) <;> simp [firsts, hSeen]

theorem firsts_sublist (xs : List α) : (firsts same xs).Sublist xs := by
  have hItems : xs.zipIdx.map (·.1) = xs := List.zipIdx_map_fst 0 xs
  have hKept : (firsts same xs).Sublist (xs.zipIdx.map (·.1)) := List.filter_sublist.map _
  rwa [hItems] at hKept

theorem firsts_apart (xs : List α) : (firsts same xs).Pairwise fun x y => same x y = false := by
  induction xs using List.reverseRecOn with
  | nil => exact List.Pairwise.nil
  | append_singleton xs x ih =>
    rw [firsts_append]
    split
    · exact ih
    · rename_i hNew
      have hNone : ∀ y ∈ xs, same y x = false := by simpa using hNew
      refine List.pairwise_append.mpr ⟨ih, List.pairwise_singleton _ _, fun y hy z hz => ?_⟩
      rw [List.mem_singleton.mp hz]
      exact hNone y ((firsts_sublist xs).subset hy)

/-- Nothing is left out if no two items are the same. -/
theorem firsts_of_apart (h : xs.Pairwise fun x y => same x y = false) : firsts same xs = xs := by
  induction xs using List.reverseRecOn with
  | nil => rfl
  | append_singleton xs x ih =>
    obtain ⟨hBefore, -, hLast⟩ := List.pairwise_append.mp h
    have hNew : xs.any (same · x) = false :=
      List.any_eq_false.mpr fun y hy => by simp [hLast y hy x (by simp)]
    rw [firsts_append, ih hBefore, hNew, if_neg Bool.false_ne_true]

/-- An item is the same as one of a list exactly if it is the same as one of its first
occurrences. -/
theorem any_firsts (h : EquivalenceOn kind same) (hxs : ∀ y ∈ xs, kind y) (hx : kind x) :
    (firsts same xs).any (same · x) = xs.any (same · x) := by
  induction xs using List.reverseRecOn with
  | nil => rfl
  | append_singleton xs y ih =>
    obtain ⟨hBefore, hLast⟩ := List.forall_mem_append.mp hxs
    have hy : kind y := hLast y (by simp)
    rw [firsts_append, List.any_append]
    split
    · rename_i hSeen
      obtain ⟨z, hz, hSame⟩ := List.any_eq_true.mp hSeen
      have hThere : same y x = true → xs.any (same · x) = true := fun hNext =>
        List.any_eq_true.mpr ⟨z, hz, h.trans (hBefore z hz) hy hx hSame hNext⟩
      rw [ih hBefore]
      cases hNext : same y x <;> simp_all
    · rw [List.any_append, ih hBefore]

theorem keepsFirsts (h : EquivalenceOn kind same) (hxs : ∀ x ∈ xs, kind x) :
    KeepsFirsts same xs (firsts same xs) := by
  refine ⟨rfl, firsts_sublist xs, firsts_apart xs, fun x hx => ?_⟩
  have hThere : xs.any (same · x) = true := List.any_eq_true.mpr ⟨x, hx, h.refl (hxs x hx)⟩
  rw [← any_firsts h hxs (hxs x hx)] at hThere
  exact List.any_eq_true.mp hThere

/-- First occurrences of what a function makes of the items. -/
theorem firsts_map {β : Type} (f : β → α) (xs : List β) :
    firsts same (xs.map f) = (firsts (fun x y => same (f x) (f y)) xs).map f := by
  induction xs using List.reverseRecOn with
  | nil => rfl
  | append_singleton xs x ih =>
    have hAny : (xs.map f).any (same · (f x)) = xs.any fun y => same (f y) (f x) := List.any_map
    rw [List.map_append, List.map_singleton, firsts_append, firsts_append, hAny, ih]
    split
    · rfl
    · rw [List.map_append, List.map_singleton]

/-- Equality of what a function makes of the items is an equivalence. -/
theorem EquivalenceOn.of_key {β : Type} {key : α → β}
    (h : ∀ {x y}, kind x → kind y → (same x y = true ↔ key x = key y)) : EquivalenceOn kind same where
  refl hx := (h hx hx).mpr rfl
  symm hx hy hSame := (h hy hx).mpr ((h hx hy).mp hSame).symm
  trans hx hy hz hSame hNext := (h hx hz).mpr (((h hx hy).mp hSame).trans ((h hy hz).mp hNext))

end

/-! ## Equality by meaning -/

/-- A number that is no integer is the same as itself only, unless it is none at all. -/
theorem Binary64.same_iff {x y : Binary64} (hx : x ≠ .nan) (hFraction : x.toInt? = none)
    (hFraction' : y.toInt? = none) : Binary64.same x y = true ↔ x = y := by
  cases x with
  | nan => exact absurd rfl hx
  | infinite s => cases y <;> simp [Binary64.same]
  | finite s m e =>
    have hSome : m ≠ 0 := by
      rintro rfl
      simp [toInt?, ratio] at hFraction
      split at hFraction <;> simp at hFraction
    cases y <;> simp [Binary64.same, hSome, and_assoc]

namespace Value

/-- Values that may be members of a set and are equal to themselves. -/
inductive IsMember : Value → Prop
  | null : IsMember null
  | bool (b : Bool) : IsMember (bool b)
  | int (i : Int) : IsMember (int i)
  | float {x : Binary64} (h : x ≠ .nan) : IsMember (float x)
  | text (s : String) : IsMember (text s)
  | illFormed (ps : List Text.Point) : IsMember (illFormed ps)
  | bytes (bs : List UInt8) : IsMember (bytes bs)
  | date (d : Date) : IsMember (date d)
  | moment (m : Moment) : IsMember (moment m)
  | tuple {xs : List Value} (h : ∀ x ∈ xs, IsMember x) : IsMember (tuple xs)

/-- What a member of a set contains, whatever its type: any number its magnitude, a moment its time
and whether this is an instant or the reading of a clock. -/
inductive Content where
  | null
  | number (m : Magnitude)
  | text (s : String)
  | illFormed (ps : List Text.Point)
  | bytes (bs : List UInt8)
  | date (d : Date)
  | moment (instant : Bool) (ticks : Int)
  | tuple (xs : List Content)
  | collection

mutual

def content : Value → Content
  | null => .null
  | bool b => .number (.whole (if b then 1 else 0))
  | int i => .number (.whole i)
  | float x => .number (match x.toInt? with | some i => .whole i | none => .other x)
  | text s => .text s
  | illFormed ps => .illFormed ps
  | bytes bs => .bytes bs
  | date d => .date d
  | moment m => .moment m.offset.isSome (m.ticks - m.offset.getD 0 * 60000000)
  | tuple xs => .tuple (contents xs)
  | list _ | set _ | map _ => .collection

def contents : List Value → List Content
  | [] => []
  | x :: xs => content x :: contents xs

end

/-- A magnitude in the form in which it is compared. -/
def Magnitude.IsProper : Magnitude → Prop
  | .whole _ => True
  | .other x => x ≠ .nan ∧ x.toInt? = none

theorem Magnitude.same_iff {x y : Magnitude} (hx : x.IsProper) (hy : y.IsProper) :
    x.same y = true ↔ x = y := by
  cases x with
  | whole i => cases y <;> simp [Magnitude.same]
  | other x =>
    cases y with
    | whole j => simp [Magnitude.same]
    | other y => simpa [Magnitude.same] using Binary64.same_iff hx.1 hx.2 hy.2

theorem IsMember.magnitude_isProper {v : Value} (hv : v.IsMember) {x : Magnitude}
    (h : v.magnitude? = some x) : x.IsProper := by
  cases hv with
  | float hNumber =>
    obtain rfl := Option.some.inj h
    split
    · trivial
    · rename_i hFraction
      exact ⟨hNumber, hFraction⟩
  | bool b | int i =>
    obtain rfl := Option.some.inj h
    trivial
  | _ => cases h

theorem content_of_magnitude {v : Value} {x : Magnitude} (h : v.magnitude? = some x) :
    v.content = .number x := by
  cases v with
  | bool b | int i | float z => exact congrArg Content.number (Option.some.inj h)
  | _ => cases h

theorem same_of_magnitude {v w : Value} {x y : Magnitude} (hv : v.magnitude? = some x)
    (hw : w.magnitude? = some y) : v.same w = x.same y := by
  cases v <;> cases w <;> simp_all [magnitude?, same]

theorem same_iff_of_magnitude {v w : Value} (hv : v.IsMember) (hw : w.IsMember) {x y : Magnitude}
    (hx : v.magnitude? = some x) (hy : w.magnitude? = some y) :
    v.same w = true ↔ v.content = w.content := by
  rw [same_of_magnitude hx hy, content_of_magnitude hx, content_of_magnitude hy,
    Magnitude.same_iff (hv.magnitude_isProper hx) (hw.magnitude_isProper hy), Content.number.injEq]

theorem same_moments (m n : Moment) :
    m.same n = true ↔ (moment m).content = (moment n).content := by
  unfold Moment.same
  cases hOffset : m.offset <;> cases hOffset' : n.offset <;> simp [content, hOffset, hOffset']

mutual

/-- Values that are equal as data are one value. -/
theorem eq_of_beq {v w : Value} (h : v.beq w = true) : v = w := by
  cases v with
  | list xs | tuple xs | set xs =>
    cases w <;> first | exact congrArg _ (eq_of_beqItems h) | cases h
  | map es =>
    cases w <;> first | exact congrArg _ (eq_of_beqEntries h) | cases h
  | _ => cases w <;> simp_all [beq]

theorem eq_of_beqItems {xs ys : List Value} (h : beqItems xs ys = true) : xs = ys := by
  cases xs with
  | nil => cases ys <;> simp_all [beqItems]
  | cons x xs =>
    cases ys with
    | nil => simp [beqItems] at h
    | cons y ys =>
      obtain ⟨hFirst, hRest⟩ := Bool.and_eq_true_iff.mp h
      rw [eq_of_beq hFirst, eq_of_beqItems hRest]

theorem eq_of_beqEntries {es fs : List (Value × Value)} (h : beqEntries es fs = true) : es = fs := by
  match es, fs with
  | [], [] => rfl
  | [], _ :: _ | _ :: _, [] => simp [beqEntries] at h
  | (k, v) :: es, (k', v') :: fs =>
    obtain ⟨hEntry, hRest⟩ := Bool.and_eq_true_iff.mp h
    obtain ⟨hKey, hValue⟩ := Bool.and_eq_true_iff.mp hEntry
    rw [eq_of_beq hKey, eq_of_beq hValue, eq_of_beqEntries hRest]

end

theorem sameItems_iff {xs : List Value} (h : ∀ x ∈ xs, ∀ y, y.IsMember →
    (x.same y = true ↔ x.content = y.content)) {ys : List Value} (hys : ∀ y ∈ ys, y.IsMember) :
    sameItems xs ys = true ↔ contents xs = contents ys := by
  induction xs generalizing ys with
  | nil => cases ys <;> simp [sameItems, contents]
  | cons x xs ih =>
    cases ys with
    | nil => simp [sameItems, contents]
    | cons y ys =>
      obtain ⟨hx, hxs⟩ := List.forall_mem_cons.mp h
      obtain ⟨hy, hys⟩ := List.forall_mem_cons.mp hys
      have hWritten : (x == y) = true → x.same y = true := fun hEq => by
        rw [hx y hy, eq_of_beq hEq]
      rw [sameItems, Bool.and_eq_true, Bool.or_eq_true, or_iff_right_of_imp hWritten, hx y hy,
        ih hxs hys, contents, contents, List.cons.injEq]

/-- Members of a set are the same exactly if they contain the same. -/
theorem same_iff {v w : Value} (hv : v.IsMember) (hw : w.IsMember) :
    v.same w = true ↔ v.content = w.content := by
  induction hv generalizing w with
  | bool _ | int _ | float _ =>
    cases hw with
    | bool _ | int _ | float _ =>
      refine same_iff_of_magnitude ?_ ?_ rfl rfl <;> constructor <;> assumption
    | _ => simp [same, content, magnitude?]
  | moment m =>
    cases hw with
    | moment n => rw [same, same_moments]
    | _ => simp [same, content, magnitude?]
  | tuple h ih =>
    cases hw with
    | tuple hItems => simpa [same, content] using sameItems_iff (fun x hx y hy => ih x hx hy) hItems
    | _ => simp [same, content, magnitude?]
  | _ => cases hw <;> simp [same, content, magnitude?]

theorem same_equivalence : EquivalenceOn IsMember same := .of_key same_iff

/-! ## Values without repetitions -/

theorem IsMember.isKey {v : Value} (h : v.IsMember) : v.isKey = true := by cases h <;> rfl

/-- What is left of some values when the first occurrences of others are there already. -/
theorem distinct_go {seen rest : List Value} (hSeen : ∀ x ∈ seen, x.IsMember)
    (hRest : ∀ x ∈ rest, x.IsMember) : distinct.go (firsts same seen).reverse rest =
      .ok (firsts same (seen ++ rest)) := by
  induction rest generalizing seen with
  | nil => rw [distinct.go, List.reverse_reverse, List.append_nil]
  | cons x rest ih =>
    obtain ⟨hx, hRest⟩ := List.forall_mem_cons.mp hRest
    have hNext : ∀ y ∈ seen ++ [x], y.IsMember :=
      List.forall_mem_append.mpr ⟨hSeen, List.forall_mem_singleton.mpr hx⟩
    have hAny : (firsts same seen).reverse.any (same · x) = seen.any (same · x) := by
      rw [List.any_reverse, any_firsts same_equivalence hSeen hx]
    have hStep := ih hNext hRest
    rw [firsts_append, List.append_assoc, List.singleton_append] at hStep
    rw [distinct.go, hx.isKey, Bool.not_true, if_neg Bool.false_ne_true, hAny, ← hStep]
    split
    · rfl
    · rw [List.reverse_concat]

/-- The values that are left are the first occurrences. -/
theorem distinct_eq {xs : List Value} (h : ∀ x ∈ xs, x.IsMember) :
    distinct xs = .ok (firsts same xs) := by
  have hNone : ∀ x ∈ ([] : List Value), x.IsMember := by simp
  exact distinct_go hNone h

/-- They are the first occurrences of themselves. -/
theorem distinct_again {xs : List Value} (h : ∀ x ∈ xs, x.IsMember) :
    distinct (firsts same xs) = .ok (firsts same xs) := by
  have hKept : ∀ x ∈ firsts same xs, x.IsMember := fun x hx => h x ((firsts_sublist xs).subset hx)
  rw [distinct_eq hKept, firsts_of_apart (firsts_apart xs)]

end Value

end EntityGraph
