import EntityGraph.Proofs.Json.Graphs
import EntityGraph.Proofs.Points

/-!
# Values of documents

A document has a value unless an integer has too many digits.  The value is built from the same
parts as the one that the document denotes, and only what strings and numbers are read as may
differ.

* `readings`: what strings and numbers are read as;
* `Tree.scalarValue_gives`: the value of a scalar;
* `Tree.value_read`: the value of a tree from the meanings of its nodes;
* `Tree.graph_value`: the value of the graph of a tree.
-/

namespace EntityGraph.Json

open Markup

/-- What strings and numbers are read as. -/
def readings : Senses := ⟨fun ps => .ofPoints (Pieces.points ps), Number.reading⟩

/-- The condition under which all integers can be read. -/
def shortness : Rules where
  number := Number.isShort

variable {g : Graph} {p : Place} {r : Reading} {value : Place → Value}

/-! ## Entries -/

theorem putEntry_eq {o : Place} {k v : Value} {seen : List (Place × Value × Value)}
    (h : ∀ s ∈ seen, s.1 ≠ o) :
    (Reading.putEntry o k v seen).map (·.2) = Value.put k v (seen.map (·.2)) := by
  induction seen with
  | nil => rfl
  | cons s seen ih =>
    obtain ⟨o', k', v'⟩ := s
    have hOther : o' ≠ o := h _ List.mem_cons_self
    have hRest := ih fun s hs => h s (.tail _ hs)
    simp only [Reading.putEntry, List.map_cons, Value.put, hOther, decide_false, Bool.false_or]
    split
    · rfl
    · rw [List.map_cons, hRest]

theorem putEntry_origins {o : Place} {k v : Value} {seen : List (Place × Value × Value)} :
    ∀ s ∈ Reading.putEntry o k v seen, s.1 = o ∨ s.1 ∈ seen.map (·.1) := by
  induction seen with
  | nil =>
    intro s hs
    exact .inl (congrArg Prod.fst (List.mem_singleton.mp hs))
  | cons s seen ih =>
    obtain ⟨o', k', v'⟩ := s
    intro s hs
    rw [Reading.putEntry] at hs
    split at hs
    · rcases List.mem_cons.mp hs with rfl | hs
      · exact .inr List.mem_cons_self
      · exact .inr (.tail _ (List.mem_map_of_mem hs))
    · rcases List.mem_cons.mp hs with rfl | hs
      · exact .inr List.mem_cons_self
      · exact (ih s hs).imp_right fun hs => .tail _ hs

/-- Entries whose names have origins of their own are put one after another. -/
theorem entryValues_eq {es : List Entry} (hOrigins : ∀ e ∈ es, r.origin e.1 = e.1)
    (hNodup : (es.map (·.1)).Nodup) :
    Value.map (r.entryValues value es) = objectOf (es.map fun e => (value e.1, value e.2)) := by
  have hFold : ∀ seen : List (Place × Value × Value), (∀ s ∈ seen, s.1 ∉ es.map (·.1)) →
      (es.foldl (fun seen e => Reading.putEntry (r.origin e.1) (value e.1) (value e.2) seen)
        seen).map (·.2) =
      (es.map fun e => (value e.1, value e.2)).foldl (fun es m => Value.put m.1 m.2 es)
        (seen.map (·.2)) := by
    induction es with
    | nil => exact fun _ _ => rfl
    | cons e es ih =>
      intro seen hSeen
      obtain ⟨hNew, hRest⟩ := List.nodup_cons.mp hNodup
      have hOrigin : r.origin e.1 = e.1 := hOrigins e List.mem_cons_self
      rw [List.foldl_cons, List.map_cons, List.foldl_cons, hOrigin,
        ih (fun e he => hOrigins e (.tail _ he)) hRest, putEntry_eq]
      · exact fun s hs hSame => hSeen s hs (hSame ▸ List.mem_cons_self)
      · intro s hs
        rcases putEntry_origins s hs with hSame | hOld
        · exact hSame ▸ hNew
        · obtain ⟨s', hs', hSame⟩ := List.mem_map.mp hOld
          exact fun hIn => hSeen s' hs' (hSame ▸ .tail _ hIn)
  exact congrArg Value.map (hFold [] nofun)

/-- The names of an object lie at places of their own. -/
theorem Members.keys_nodup {p : Nat} :
    ∀ members : Members, Lies g (members.nodes p) → ((members.places p).map (·.1)).Nodup
  | .last _ _ _ _, _ => List.nodup_cons.mpr ⟨List.not_mem_nil, List.nodup_nil⟩
  | .cons _ _ item _ rest, h => by
    obtain ⟨hRest, -⟩ := lies_append.mp h
    refine List.nodup_cons.mpr ⟨fun hp => ?_, rest.keys_nodup hRest⟩
    obtain ⟨e, he, hSame⟩ := List.mem_map.mp hp
    have hBounds := (rest.places_bounds hRest he).1.1
    rw [show e.1 = p from hSame] at hBounds
    omega

/-! ## Scalars -/

theorem ofPoints_pointsOf (cs : List Char) :
    Value.ofPoints (pointsOf cs) = .text (String.ofList cs) :=
  Value.ofPoints_map_char cs

variable [Limits]

theorem points_eq {points : List Text.Point} (h : (g.at p).content = .scalar points) :
    g.points p = .ok points := by
  rw [Graph.points, Graph.pointsWithin, h]

theorem str_value {points : List Text.Point} (hTag : (g.at p).tag = .str)
    (hContent : (g.at p).content = .scalar points) :
    g.scalarValue p = .ok (.ofPoints points) := by
  rw [Graph.scalarValue, hTag, points_eq hContent]
  rfl

theorem number_value {n : Number} (hTag : (g.at p).tag = n.tag)
    (hContent : (g.at p).content = .scalar (pointsOf n.chars)) :
    GivesIf n.isShort n.reading (g.scalarValue p) := by
  rw [Number.tag] at hTag
  rw [Number.reading]
  cases hWhole : n.isWhole with
  | true =>
    rw [hWhole, if_pos rfl] at hTag
    have hInt : g.scalarValue p = (intOfPoints (pointsOf n.chars)).map Value.int := by
      rw [Graph.scalarValue, hTag, points_eq hContent]
      show (intOfPoints _ >>= _) = _
      cases intOfPoints (pointsOf n.chars) <;> rfl
    rw [hInt, if_pos rfl]
    exact (Number.intOfPoints_gives hWhole).map Value.int
  | false =>
    have hShort : n.isShort = true := by simp [Number.isShort, hWhole]
    rw [hWhole, if_neg Bool.false_ne_true] at hTag
    rw [hShort, if_neg Bool.false_ne_true]
    refine .of_eq ?_
    cases hPointed : n.isPointed with
    | true =>
      rw [hPointed, if_pos rfl] at hTag
      rw [Graph.scalarValue, hTag, points_eq hContent, if_pos rfl]
      show (floatOfPoints _ >>= _) = _
      rw [n.floatOfPoints_eq]
      rfl
    | false =>
      rw [hPointed, if_neg Bool.false_ne_true] at hTag
      rw [str_value hTag hContent, if_neg Bool.false_ne_true, ofPoints_pointsOf]

/-- A scalar has the value that it is read as, unless it is an integer with too many digits. -/
theorem Tree.scalarValue_gives (t : Tree) (h : Lies g (t.nodes p))
    (hScalar : t.tag.isCollection = false) :
    GivesIf (t.obeys shortness) (t.valueIn readings) (g.scalarValue p) := by
  obtain ⟨hTag, hContent⟩ := t.lies_root h
  cases t with
  | null =>
    refine .of_eq ?_
    rw [Graph.scalarValue, hTag, points_eq hContent]
    rfl
  | bool b =>
    refine .of_eq ?_
    rw [Graph.scalarValue, hTag, points_eq hContent]
    cases b <;> rfl
  | number n => exact number_value hTag hContent
  | string ps => exact .of_eq (str_value hTag hContent)
  | emptyArray _ | array _ | emptyObject _ | object _ => cases hScalar

/-! ## Trees -/

/-- A text comes from its own place. -/
theorem text_origin (h : Reading.Complete g r) (hTag : (g.at p).tag = .str) (hMet : r.Met p) :
    r.origin p = p := by
  cases h.opened p hMet with
  | scalar hTag' hScalarValue hMeaning =>
    rw [Reading.origin, hMeaning]
    show Reading.originOf _ p = p
    have hText : (((Reading.start g).graph.at p).tag = .float) = False := by
      show ((g.at p).tag = .float) = False
      simp [hTag]
    simp [Reading.originOf, hText]
  | sequence hTag' =>
    rw [hTag] at hTag'
    cases hTag'
  | mapping hTag' =>
    rw [hTag] at hTag'
    cases hTag'

section

variable (h : Reading.Complete g r)
  (hValue : ∀ p, r.Met p → ∃ m, r.meaning? p = some m ∧ value p = r.valueFrom value m)
include h hValue

theorem leaf_read (t : Tree) (hLies : Lies g (t.nodes p)) (hScalar : t.tag.isCollection = false)
    (hMet : r.Met p) : t.obeys shortness = true ∧ value p = t.valueIn readings := by
  obtain ⟨hTag, -⟩ := t.lies_root hLies
  obtain ⟨hShort, hLong⟩ := t.scalarValue_gives hLies hScalar
  cases h.opened p hMet with
  | @scalar v hTag' hScalarValue hMeaning =>
    obtain ⟨m, hm, hEq⟩ := hValue p hMet
    obtain rfl := Option.some.inj (hMeaning.symm.trans hm)
    cases hObeys : t.obeys shortness with
    | true =>
      have hv := Except.ok.inj (hScalarValue.symm.trans (hShort hObeys))
      exact ⟨rfl, hEq.trans hv⟩
    | false =>
      obtain ⟨f, hf⟩ := hLong hObeys
      cases hScalarValue.symm.trans hf
  | sequence hTag' =>
    rw [← hTag, hTag'] at hScalar
    cases hScalar
  | mapping hTag' =>
    rw [← hTag, hTag'] at hScalar
    cases hScalar

theorem sequence_read {places : List Place} (hTag : (g.at p).tag = .seq)
    (hContent : (g.at p).content = .sequence places) (hMet : r.Met p) :
    (∀ q ∈ places, r.Met q) ∧ value p = .list (places.map value) := by
  cases h.opened p hMet with
  | scalar hTag' =>
    rw [hTag] at hTag'
    cases hTag'
  | @sequence items _ hContent' hMeaning hItems =>
    obtain rfl := Content.sequence.inj (hContent.symm.trans hContent')
    obtain ⟨m, hm, hEq⟩ := hValue p hMet
    obtain rfl := Option.some.inj (hMeaning.symm.trans hm)
    exact ⟨hItems, hEq⟩
  | mapping hTag' =>
    rw [hTag] at hTag'
    cases hTag'

theorem mapping_read {entries : List Entry} (hTag : (g.at p).tag = .map)
    (hContent : (g.at p).content = .mapping entries)
    (hKeys : ∀ e ∈ entries, (g.at e.1).tag = .str) (hNodup : (entries.map (·.1)).Nodup)
    (hMet : r.Met p) :
    (∀ e ∈ entries, r.Met e.1 ∧ r.Met e.2) ∧
      value p = objectOf (entries.map fun e => (value e.1, value e.2)) := by
  cases h.opened p hMet with
  | scalar hTag' =>
    rw [hTag] at hTag'
    cases hTag'
  | sequence hTag' =>
    rw [hTag] at hTag'
    cases hTag'
  | @mapping es _ hContent' hMeaning hEntries =>
    obtain rfl := Content.mapping.inj (hContent.symm.trans hContent')
    obtain ⟨m, hm, hEq⟩ := hValue p hMet
    obtain rfl := Option.some.inj (hMeaning.symm.trans hm)
    refine ⟨hEntries, hEq.trans (entryValues_eq (fun e he => ?_) hNodup)⟩
    exact text_origin h (hKeys e he) (hEntries e he).1

end

mutual

/-- A tree that has been read has only integers with few digits, and the value that it is read
as. -/
theorem Tree.value_read {p : Nat} (t : Tree)
    (h : Reading.Complete g r)
    (hValue : ∀ p, r.Met p → ∃ m, r.meaning? p = some m ∧ value p = r.valueFrom value m)
    (hLies : Lies g (t.nodes p)) (hMet : r.Met p) :
    t.obeys shortness = true ∧ value p = t.valueIn readings := by
  obtain ⟨hTag, hContent⟩ := t.lies_root hLies
  cases t with
  | null => exact leaf_read h hValue _ hLies rfl hMet
  | bool b => exact leaf_read h hValue _ hLies rfl hMet
  | number n => exact leaf_read h hValue _ hLies n.tag_scalar hMet
  | string ps => exact leaf_read h hValue _ hLies rfl hMet
  | emptyArray gap => exact ⟨rfl, (sequence_read h hValue hTag hContent hMet).2⟩
  | array items =>
    obtain ⟨hItems, hList⟩ := sequence_read h hValue hTag hContent hMet
    obtain ⟨hShort, hValues⟩ := items.values_read h hValue (lies_cons.mp hLies).2 hItems
    exact ⟨hShort, hList.trans (congrArg Value.list hValues)⟩
  | emptyObject gap => exact ⟨rfl, (mapping_read h hValue hTag hContent nofun .nil hMet).2⟩
  | object members =>
    have hMembers := (lies_cons.mp hLies).2
    obtain ⟨hMets, hMap⟩ := mapping_read h hValue hTag hContent
      (fun e he => (members.places_bounds hMembers he).1.2.2) (members.keys_nodup hMembers) hMet
    obtain ⟨hShort, hValues⟩ := members.values_read h hValue hMembers hMets
    exact ⟨hShort, hMap.trans (congrArg objectOf hValues)⟩

theorem Items.values_read {p : Nat} (items : Items)
    (h : Reading.Complete g r)
    (hValue : ∀ p, r.Met p → ∃ m, r.meaning? p = some m ∧ value p = r.valueFrom value m)
    (hLies : Lies g (items.nodes p))
    (hMet : ∀ q ∈ items.places p, r.Met q) :
    items.obey shortness = true ∧ (items.places p).map value = items.valuesIn readings := by
  cases items with
  | last before item after =>
    rw [Items.obey_last fun _ => rfl]
    obtain ⟨hShort, hItem⟩ := item.value_read h hValue hLies (hMet p List.mem_cons_self)
    exact ⟨hShort, congrArg (fun v => [v]) hItem⟩
  | cons before item after rest =>
    rw [Items.obey_cons fun _ => rfl]
    obtain ⟨hRestLies, hItemLies⟩ := lies_append.mp hLies
    obtain ⟨hMetItem, hMetRest⟩ := List.forall_mem_cons.mp hMet
    obtain ⟨hShort, hItem⟩ := item.value_read h hValue hItemLies hMetItem
    obtain ⟨hShortRest, hRest⟩ := rest.values_read h hValue hRestLies hMetRest
    exact ⟨by rw [hShort, hShortRest]; rfl, congrArg₂ List.cons hItem hRest⟩

theorem Members.values_read {p : Nat} (members : Members)
    (h : Reading.Complete g r)
    (hValue : ∀ p, r.Met p → ∃ m, r.meaning? p = some m ∧ value p = r.valueFrom value m)
    (hLies : Lies g (members.nodes p))
    (hMet : ∀ e ∈ members.places p, r.Met e.1 ∧ r.Met e.2) :
    members.obey shortness = true ∧
      (members.places p).map (fun e => (value e.1, value e.2)) = members.valuesIn readings := by
  cases members with
  | last key before item after =>
    rw [Members.obey_last fun _ => rfl]
    obtain ⟨hItemLies, hKeyLies⟩ := lies_append.mp hLies
    obtain ⟨hMetKey, hMetItem⟩ := hMet _ List.mem_cons_self
    obtain ⟨-, hKey⟩ := leaf_read h hValue (.string key.pieces) hKeyLies rfl hMetKey
    obtain ⟨hShort, hItem⟩ := item.value_read h hValue hItemLies hMetItem
    exact ⟨by rw [hShort]; rfl, congrArg₂ (fun k v => [(k, v)]) hKey hItem⟩
  | cons key before item after rest =>
    rw [Members.obey_cons fun _ => rfl]
    obtain ⟨hRestLies, hFirstLies⟩ := lies_append.mp hLies
    obtain ⟨hItemLies, hKeyLies⟩ := lies_append.mp hFirstLies
    obtain ⟨⟨hMetKey, hMetItem⟩, hMetRest⟩ := List.forall_mem_cons.mp hMet
    obtain ⟨-, hKey⟩ := leaf_read h hValue (.string key.pieces) hKeyLies rfl hMetKey
    obtain ⟨hShort, hItem⟩ := item.value_read h hValue hItemLies hMetItem
    obtain ⟨hShortRest, hRest⟩ := rest.values_read h hValue hRestLies hMetRest
    exact ⟨by rw [hShort, hShortRest]; rfl,
      congrArg₂ List.cons (congrArg₂ Prod.mk hKey hItem) hRest⟩

end

/-! ## Documents -/

/-- A node is a collection, or a scalar that has a value. -/
def IsValued (g : Graph) (p : Place) : Prop :=
  (g.at p).tag.isCollection = true ∨ ∃ v, g.scalarValue p = .ok v

mutual

/-- A scalar that has no value is an integer with too many digits. -/
theorem Tree.valued (t : Tree) {p : Place} (hLies : Lies g (t.nodes p))
    (hShort : t.obeys shortness = true) : ∀ n ∈ t.nodes p, IsValued g n.1 := by
  obtain ⟨hTag, hContent⟩ := t.lies_root hLies
  have hRoot : IsValued g p := by
    cases hScalar : t.tag.isCollection with
    | true => exact .inl (by rw [hTag, hScalar])
    | false => exact .inr ⟨_, (t.scalarValue_gives hLies hScalar).1 hShort⟩
  cases t with
  | array items =>
    exact List.forall_mem_cons.mpr ⟨hRoot, items.valued (lies_cons.mp hLies).2 hShort⟩
  | object members =>
    exact List.forall_mem_cons.mpr ⟨hRoot, members.valued (lies_cons.mp hLies).2 hShort⟩
  | null | bool _ | number _ | string _ | emptyArray _ | emptyObject _ =>
    exact fun n hn => List.mem_singleton.mp hn ▸ hRoot

theorem Items.valued (items : Items) {p : Place} (hLies : Lies g (items.nodes p))
    (hShort : items.obey shortness = true) : ∀ n ∈ items.nodes p, IsValued g n.1 := by
  cases items with
  | last before item after =>
    rw [Items.obey_last fun _ => rfl] at hShort
    exact item.valued hLies hShort
  | cons before item after rest =>
    rw [Items.obey_cons fun _ => rfl, Bool.and_eq_true] at hShort
    obtain ⟨hRest, hItem⟩ := lies_append.mp hLies
    exact List.forall_mem_append.mpr ⟨rest.valued hRest hShort.2, item.valued hItem hShort.1⟩

theorem Members.valued (members : Members) {p : Place} (hLies : Lies g (members.nodes p))
    (hShort : members.obey shortness = true) : ∀ n ∈ members.nodes p, IsValued g n.1 := by
  have hKey : ∀ {key : Key} {p : Place},
      Lies g [((p, .str, .scalar (Pieces.points key.pieces)) : Shape)] →
      ∀ n ∈ [((p, .str, .scalar (Pieces.points key.pieces)) : Shape)], IsValued g n.1 :=
    fun hLies n hn => List.mem_singleton.mp hn ▸
      .inr ⟨_, str_value (lies_cons.mp hLies).1.1 (lies_cons.mp hLies).1.2⟩
  cases members with
  | last key before item after =>
    rw [Members.obey_last fun _ => rfl, Bool.and_eq_true] at hShort
    obtain ⟨hItem, hFirst⟩ := lies_append.mp hLies
    exact List.forall_mem_append.mpr ⟨item.valued hItem hShort.2, hKey hFirst⟩
  | cons key before item after rest =>
    simp only [Members.obey_cons (r := shortness) fun _ => rfl, Bool.and_eq_true] at hShort
    obtain ⟨hRest, hMember⟩ := lies_append.mp hLies
    obtain ⟨hItem, hFirst⟩ := lies_append.mp hMember
    exact List.forall_mem_append.mpr ⟨rest.valued hRest hShort.2,
      List.forall_mem_append.mpr ⟨item.valued hItem hShort.1.2, hKey hFirst⟩⟩

end

/-- The graph of a tree has the value that the tree is read as, unless an integer has too many
digits. -/
theorem Tree.graph_value {t : Tree} (h : t.IsGraph g) :
    Ends (fun _ => t.obeys shortness = false)
      (fun v => t.obeys shortness = true ∧ v = t.valueIn readings) (g.value 0) := by
  have hOrdered := Tree.isOrdered h
  have hFaulty : g.IsFaulty → t.obeys shortness = false := fun ⟨p, hp, hScalar, f, hf⟩ => by
    refine Bool.eq_false_iff.mpr fun hShort => ?_
    have hPlace : p ∈ (t.nodes 0).map (·.1) := t.mem_places (h.size ▸ hp)
    obtain ⟨n, hn, rfl⟩ := List.mem_map.mp hPlace
    rcases t.valued h.lies hShort n hn with hCollection | ⟨v, hv⟩
    · rw [hScalar] at hCollection
      cases hCollection
    · cases hv.symm.trans hf
  have hOpening : g.value 0 = ((Reading.start g).meet 0 >>= Reading.openWaiting g.size) >>=
      fun r => .ok (r.value 0) := by
    rw [Graph.value]
    cases (Reading.start g).meet 0 <;> rfl
  rw [hOpening]
  obtain ⟨hFails, hReads⟩ := Reading.opening_ends hOrdered (h.size ▸ t.size_pos)
  refine .bind (⟨hFails.mono fun _ => hFaulty, hReads⟩ : Ends _ _ _) fun r ⟨hComplete, hMet⟩ => ?_
  obtain ⟨value, hValue⟩ := hComplete.value_spec hOrdered
  obtain ⟨hShort, hEq⟩ :=
    t.value_read hComplete (fun p hp => (hValue p hp).2) h.lies hMet
  exact .ok ⟨hShort, (hValue 0 hMet).1.trans hEq⟩

end EntityGraph.Json
