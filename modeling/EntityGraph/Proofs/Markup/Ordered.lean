import EntityGraph.Markup.Meaning
import EntityGraph.Proofs.Failing
import Mathlib.Data.List.Basic

/-!
# Documents without cycles

In the graph of many documents every part lies behind the whole, all names are texts, and nothing is
merged.  Such a document is opened level by level: what waits in one round lies behind what was
opened in the round before, so that there are rounds enough.  Its values are settled in the other
direction, the last node of all being the first.

* `Graph.Orders`, `Graph.IsOrdered`: graphs of this kind;
* `Reading.Opens`, `Reading.Advances`: a document in reading, and a step that keeps what is known;
* `openWaiting_opened`: all nodes that are met are opened, or a scalar is refused;
* `settle_complete`: all of them are settled;
* `value_spec`: the value of a document is determined by the meanings of its nodes.
-/

namespace EntityGraph.Markup

/-! ## Graphs -/

/-- The parts of a node lie behind it, and its names are texts. -/
inductive Graph.Orders (g : Graph) (p : Place) : Prop where
  | scalar (hTag : (g.at p).tag.isCollection = false)
  | sequence {items : List Place} (hTag : (g.at p).tag = .seq)
      (hContent : (g.at p).content = .sequence items) (hItems : ∀ q ∈ items, p < q ∧ q < g.size)
  | mapping {entries : List Entry} (hTag : (g.at p).tag = .map)
      (hContent : (g.at p).content = .mapping entries)
      (hKeys : ∀ e ∈ entries, p < e.1 ∧ e.1 < g.size ∧ (g.at e.1).tag = .str)
      (hValues : ∀ e ∈ entries, p < e.2 ∧ e.2 < g.size)

def Graph.IsOrdered (g : Graph) : Prop := ∀ p < g.size, g.Orders p

/-- A scalar that has no value. -/
def Graph.IsFaulty [Limits] (g : Graph) : Prop :=
  ∃ p < g.size, (g.at p).tag.isCollection = false ∧ ∃ f, g.scalarValue p = .error f

/-- A mapping whose names are texts is flat. -/
theorem Graph.flatten_eq [Limits] {g : Graph} {p : Place} {es : List Entry}
    (hContent : (g.at p).content = .mapping es) (hKeys : ∀ e ∈ es, (g.at e.1).tag = .str) :
    g.flatten p = .ok g := by
  have hEntries : g.entries p = es := by rw [entries, hContent]
  have hMerge : es.any g.isMerge = false := by
    simp only [List.any_eq_false, isMerge]
    intro e he
    simp [hKeys e he]
  have hPlain : g.plainKeys es = g := by
    have h : ∀ es' ⊆ es, g.plainKeys es' = g := fun es' hSubset => by
      induction es' with
      | nil => rfl
      | cons e es' ih =>
        have hKey : ¬ (g.at e.1).tag = .value := by simp [hKeys e (hSubset List.mem_cons_self)]
        rw [plainKeys, List.foldl_cons, if_neg hKey]
        exact ih (List.subset_of_cons_subset hSubset)
    exact h es (List.Subset.refl es)
  rw [flatten, hEntries, hMerge]
  show (Except.ok (g.complete p [])) = _
  rw [complete, hEntries, hPlain]
  rfl

namespace Reading

/-! ## Opening -/

/-- A node is met. -/
def Met (r : Reading) (p : Place) : Prop := (r.meaning? p).isSome = true

variable {g : Graph} {since : Place} {todo : List Place} {r r' r'' : Reading} {p q : Place}

section

variable [Limits]

/-- A node stands for what it says, and its parts are met. -/
inductive Opened (g : Graph) (r : Reading) (p : Place) : Prop where
  | scalar {v : Value} (hTag : (g.at p).tag.isCollection = false) (hValue : g.scalarValue p = .ok v)
      (hMeaning : r.meaning? p = some (.plain v ((start g).originOf p)))
  | sequence {items : List Place} (hTag : (g.at p).tag = .seq)
      (hContent : (g.at p).content = .sequence items) (hMeaning : r.meaning? p = some (.list items))
      (hItems : ∀ q ∈ items, r.Met q)
  | mapping {entries : List Entry} (hTag : (g.at p).tag = .map)
      (hContent : (g.at p).content = .mapping entries)
      (hMeaning : r.meaning? p = some (.map entries))
      (hEntries : ∀ e ∈ entries, r.Met e.1 ∧ r.Met e.2)

/-- A document in reading.  All that wait lie from a place on, and all nodes that are met are opened
but for those that wait and those of a list. -/
structure Opens (g : Graph) (since : Place) (todo : List Place) (r : Reading) : Prop where
  graph : r.graph = g
  size : r.meanings.size = g.size
  known : ∀ p, r.Met p → Opened g r p ∨ p ∈ r.waiting ∨ p ∈ todo
  waiting : ∀ p ∈ r.waiting, since ≤ p ∧ p < g.size ∧ (g.at p).tag.isCollection = true

/-- A later state of a document in reading. -/
structure Advances (g : Graph) (since : Place) (todo : List Place) (r r' : Reading) : Prop where
  opens : Opens g since todo r'
  met : ∀ p, r.Met p → r'.Met p

theorem Opened.mono (h : Opened g r p) (hMet : ∀ q, r.Met q → r'.Met q)
    (hSame : r'.meaning? p = r.meaning? p) : Opened g r' p := by
  cases h with
  | scalar hTag hValue hMeaning => exact .scalar hTag hValue (hSame.trans hMeaning)
  | sequence hTag hContent hMeaning hItems =>
    exact .sequence hTag hContent (hSame.trans hMeaning) fun q hq => hMet q (hItems q hq)
  | mapping hTag hContent hMeaning hEntries =>
    refine .mapping hTag hContent (hSame.trans hMeaning) fun e he => ?_
    exact ⟨hMet _ (hEntries e he).1, hMet _ (hEntries e he).2⟩

theorem Advances.refl (h : Opens g since todo r) : Advances g since todo r r := ⟨h, fun _ => id⟩

theorem Advances.trans (h : ∀ p, r.Met p → r'.Met p) (h' : Advances g since todo r' r'') :
    Advances g since todo r r'' :=
  ⟨h'.opens, fun p hp => h'.met p (h p hp)⟩

omit [Limits] in
theorem meaning?_record {m : Meaning} (hp : p < r.meanings.size) :
    (r.record p m).meaning? q = if q = p then some m else r.meaning? q := by
  by_cases hq : q = p
  · subst hq
    simp [meaning?, record, hp]
  · have hOther : p ≠ q := fun hEq => hq hEq.symm
    simp [meaning?, record, Array.getD_eq_getD_getElem?, hq, hOther]

omit [Limits] in
theorem met_record {m : Meaning} (hp : p < r.meanings.size) :
    (r.record p m).Met q ↔ q = p ∨ r.Met q := by
  unfold Met
  rw [meaning?_record hp]
  split <;> simp_all

/-- What else is known stays so when a node is recorded. -/
theorem Opened.record {m : Meaning} (h : Opened g r q) (hp : p < r.meanings.size) (hq : q ≠ p) :
    Opened g (r.record p m) q :=
  h.mono (fun _ hMet => (met_record hp).mpr (.inr hMet)) (by rw [meaning?_record hp, if_neg hq])

theorem originOf_eq (hGraph : r.graph = g) : r.originOf p = (start g).originOf p := by
  rw [originOf, originOf, hGraph]
  rfl

/-- A node from a place on is met. -/
theorem Opens.meet (h : Opens g since todo r) (hPlace : since ≤ q ∧ q < g.size) :
    Ends (fun _ => g.IsFaulty) (fun r' => Advances g since todo r r' ∧ r'.Met q) (r.meet q) := by
  have hSize : q < r.meanings.size := h.size ▸ hPlace.2
  unfold Reading.meet
  split
  · rename_i hMet
    exact .ok ⟨.refl h, hMet⟩
  rw [h.graph]
  cases hTag : (g.at q).tag.isCollection with
  | true =>
    have hMet {p : Place} : (r.record q (.list [])).Met p ↔ p = q ∨ r.Met p := met_record hSize
    refine .ok ⟨⟨⟨h.graph, by simpa [record] using h.size, fun p hp => ?_, fun p hp => ?_⟩,
      fun p hp => hMet.mpr (.inr hp)⟩, hMet.mpr (.inl rfl)⟩
    · by_cases hpq : p = q
      · exact .inr (.inl (List.mem_cons.mpr (.inl hpq)))
      · rcases h.known p ((hMet.mp hp).resolve_left hpq) with hOpened | hWaiting | hTodo
        · exact .inl ((hOpened.record hSize hpq).mono (fun _ => id) rfl)
        · exact .inr (.inl (.tail _ hWaiting))
        · exact .inr (.inr hTodo)
    · rcases List.mem_cons.mp hp with rfl | hp
      · exact ⟨hPlace.1, hPlace.2, hTag⟩
      · exact h.waiting p hp
  | false =>
    cases hValue : g.scalarValue q with
    | error f => exact .error ⟨q, hPlace.2, hTag, f, hValue⟩
    | ok v =>
      have hMet {p : Place} : (r.record q (.plain v (r.originOf q))).Met p ↔ p = q ∨ r.Met p :=
        met_record hSize
      refine .ok ⟨⟨⟨h.graph, by simpa [record] using h.size, fun p hp => ?_, h.waiting⟩,
        fun p hp => hMet.mpr (.inr hp)⟩, hMet.mpr (.inl rfl)⟩
      by_cases hpq : p = q
      · subst hpq
        refine .inl (.scalar hTag hValue ?_)
        rw [meaning?_record hSize, if_pos rfl, originOf_eq h.graph]
      · exact (h.known p ((hMet.mp hp).resolve_left hpq)).imp_left fun hOpened =>
          hOpened.record hSize hpq

/-- All of some nodes are met. -/
theorem Opens.meetAll (h : Opens g since todo r) {items : List Place}
    (hItems : ∀ q ∈ items, since ≤ q ∧ q < g.size) :
    Ends (fun _ => g.IsFaulty) (fun r' => Advances g since todo r r' ∧ ∀ q ∈ items, r'.Met q)
      (items.foldlM Reading.meet r) := by
  induction items generalizing r with
  | nil => exact .ok ⟨.refl h, nofun⟩
  | cons q items ih =>
    rw [List.foldlM_cons]
    refine .bind (h.meet (hItems q List.mem_cons_self)) fun r' ⟨hFirst, hMet⟩ => ?_
    refine (ih hFirst.opens fun q hq => hItems q (.tail _ hq)).imp fun r'' ⟨hRest, hAll⟩ => ?_
    refine ⟨.trans hFirst.met hRest, fun p hp => ?_⟩
    rcases List.mem_cons.mp hp with rfl | hp
    · exact hRest.met p hMet
    · exact hAll p hp

/-- The name and the value of an entry are met; the name is a text. -/
theorem Opens.meetEntry (h : Opens g since todo r) {e : Entry} {mark : Mark}
    (hTodo : ∀ p ∈ todo, (g.at p).tag.isCollection = true)
    (hKey : since ≤ e.1 ∧ e.1 < g.size ∧ (g.at e.1).tag = .str)
    (hValue : since ≤ e.2 ∧ e.2 < g.size) :
    Ends (fun _ => g.IsFaulty) (fun r' => Advances g since todo r r' ∧ r'.Met e.1 ∧ r'.Met e.2)
      (Reading.meetEntry mark r e) := by
  refine .bind (h.meet ⟨hKey.1, hKey.2.1⟩) fun r' ⟨hFirst, hMet⟩ => ?_
  have hNot : (g.at e.1).tag.isCollection ≠ true := by simp [hKey.2.2, Tag.isCollection]
  have hOpened : Opened g r' e.1 :=
    (hFirst.opens.known e.1 hMet).elim id fun hWaits => hWaits.elim
      (fun hWaiting => absurd (hFirst.opens.waiting _ hWaiting).2.2 hNot)
      (fun hTodo' => absurd (hTodo _ hTodo') hNot)
  cases hOpened with
  | scalar hTag hValue' hMeaning =>
    rw [hMeaning]
    refine (hFirst.opens.meet hValue).imp fun r'' ⟨hRest, hMet'⟩ => ?_
    exact ⟨.trans hFirst.met hRest, hRest.met _ hMet, hMet'⟩
  | sequence hTag => simp [hKey.2.2] at hTag
  | mapping hTag => simp [hKey.2.2] at hTag

theorem Opens.meetEntries (h : Opens g since todo r) {es : List Entry} {mark : Mark}
    (hTodo : ∀ p ∈ todo, (g.at p).tag.isCollection = true)
    (hKeys : ∀ e ∈ es, since ≤ e.1 ∧ e.1 < g.size ∧ (g.at e.1).tag = .str)
    (hValues : ∀ e ∈ es, since ≤ e.2 ∧ e.2 < g.size) :
    Ends (fun _ => g.IsFaulty)
      (fun r' => Advances g since todo r r' ∧ ∀ e ∈ es, r'.Met e.1 ∧ r'.Met e.2)
      (es.foldlM (Reading.meetEntry mark) r) := by
  induction es generalizing r with
  | nil => exact .ok ⟨.refl h, nofun⟩
  | cons e es ih =>
    rw [List.foldlM_cons]
    refine .bind (h.meetEntry hTodo (hKeys e List.mem_cons_self) (hValues e List.mem_cons_self))
      fun r' ⟨hFirst, hMet⟩ => ?_
    refine (ih hFirst.opens (fun e he => hKeys e (.tail _ he)) fun e he =>
      hValues e (.tail _ he)).imp fun r'' ⟨hRest, hAll⟩ => ?_
    refine ⟨.trans hFirst.met hRest, fun e' he => ?_⟩
    rcases List.mem_cons.mp he with rfl | he
    · exact ⟨hRest.met _ hMet.1, hRest.met _ hMet.2⟩
    · exact hAll e' he

/-- A node of the list is opened. -/
theorem Opens.opened {m : Meaning} (h : Opens g since (p :: todo) r) (hp : p < g.size)
    (hOpened : Opened g (r.record p m) p) : Advances g since todo r (r.record p m) := by
  have hSize : p < r.meanings.size := h.size ▸ hp
  have hMet {q : Place} : (r.record p m).Met q ↔ q = p ∨ r.Met q := met_record hSize
  refine ⟨⟨h.graph, by simpa [record] using h.size, fun q hq => ?_, h.waiting⟩,
    fun q hq => hMet.mpr (.inr hq)⟩
  by_cases hpq : q = p
  · exact .inl (hpq ▸ hOpened)
  · rcases h.known q ((hMet.mp hq).resolve_left hpq) with hKnown | hWaiting | hTodo
    · exact .inl (hKnown.record hSize hpq)
    · exact .inr (.inl hWaiting)
    · exact .inr (.inr ((List.mem_cons.mp hTodo).resolve_left hpq))

/-- The first node of the list is opened; its parts lie behind it. -/
theorem Opens.openNode (h : Opens g since (p :: todo) r) (hOrdered : g.IsOrdered)
    (hTodo : ∀ q ∈ p :: todo, since ≤ q + 1 ∧ q < g.size ∧ (g.at q).tag.isCollection = true) :
    Ends (fun _ => g.IsFaulty) (Advances g since todo r) (r.openNode p) := by
  obtain ⟨hSince, hp, hCollection⟩ := hTodo p List.mem_cons_self
  have hBehind : ∀ {q}, p < q ∧ q < g.size → since ≤ q ∧ q < g.size := fun hq =>
    ⟨Nat.le_trans hSince hq.1, hq.2⟩
  cases hOrdered p hp with
  | scalar hTag => simp [hTag] at hCollection
  | @sequence items hTag hContent hItems =>
    have hEq : r.openNode p =
        items.foldlM Reading.meet r >>= fun r' => .ok (r'.record p (.list items)) := by
      simp only [Reading.openNode, openSequence, h.graph, hTag, hContent]
      cases items.foldlM Reading.meet r <;> rfl
    rw [hEq]
    refine .bind (h.meetAll fun q hq => hBehind (hItems q hq)) fun r' ⟨hMeets, hAll⟩ => .ok ?_
    have hSize : p < r'.meanings.size := hMeets.opens.size ▸ hp
    refine .trans hMeets.met (hMeets.opens.opened hp (.sequence hTag hContent ?_ fun q hq => ?_))
    · rw [meaning?_record hSize, if_pos rfl]
    · exact (met_record hSize).mpr (.inr (hAll q hq))
  | @mapping es hTag hContent hKeys hValues =>
    have hFlat := Graph.flatten_eq hContent fun e he => (hKeys e he).2.2
    have hEntries : g.entries p = es := by rw [Graph.entries, hContent]
    have hEq : r.openNode p = es.foldlM (Reading.meetEntry (g.at p).mark) r >>= fun r' =>
        .ok (r'.record p (.map es)) := by
      have hSame : { r with graph := g } = r := by rw [← h.graph]
      simp only [Reading.openNode, openMapping, h.graph, hTag, hContent, hFlat]
      show ((List.foldlM (Reading.meetEntry (g.at p).mark) { r with graph := g } (g.entries p) >>=
        _) >>= _) = _
      rw [hSame, hEntries]
      cases es.foldlM (Reading.meetEntry (g.at p).mark) r <;> rfl
    rw [hEq]
    refine .bind (h.meetEntries (fun q hq => (hTodo q hq).2.2)
      (fun e he => ⟨(hBehind ⟨(hKeys e he).1, (hKeys e he).2.1⟩).1, (hKeys e he).2⟩)
      fun e he => hBehind (hValues e he)) fun r' ⟨hMeets, hAll⟩ => .ok ?_
    have hSize : p < r'.meanings.size := hMeets.opens.size ▸ hp
    refine .trans hMeets.met (hMeets.opens.opened hp (.mapping hTag hContent ?_ fun e he => ?_))
    · rw [meaning?_record hSize, if_pos rfl]
    · exact ⟨(met_record hSize).mpr (.inr (hAll e he).1),
        (met_record hSize).mpr (.inr (hAll e he).2)⟩

/-- One round: all nodes of the list are opened. -/
theorem Opens.openAll (h : Opens g since todo r) (hOrdered : g.IsOrdered)
    (hTodo : ∀ q ∈ todo, since ≤ q + 1 ∧ q < g.size ∧ (g.at q).tag.isCollection = true) :
    Ends (fun _ => g.IsFaulty) (Advances g since [] r) (todo.foldlM Reading.openNode r) := by
  induction todo generalizing r with
  | nil => exact .ok (.refl h)
  | cons p todo ih =>
    rw [List.foldlM_cons]
    refine .bind (h.openNode hOrdered hTodo) fun r' hFirst => ?_
    exact (ih hFirst.opens fun q hq => hTodo q (.tail _ hq)).imp fun r'' hRest =>
      .trans hFirst.met hRest

/-- There are rounds enough to open all nodes that are met. -/
theorem openWaiting_opened {rounds : Nat} (h : Opens g since [] r) (hOrdered : g.IsOrdered)
    (hRounds : since + rounds = g.size) :
    Ends (fun _ => g.IsFaulty)
      (fun r' => Advances g g.size [] r r' ∧ r'.waiting = []) (r.openWaiting rounds) := by
  induction rounds generalizing since r with
  | zero =>
    obtain rfl : since = g.size := hRounds
    have hEmpty : r.waiting = [] := List.eq_nil_iff_forall_not_mem.mpr fun p hp =>
      absurd (h.waiting p hp).1 (Nat.not_le.mpr (h.waiting p hp).2.1)
    exact .ok ⟨.refl h, hEmpty⟩
  | succ rounds ih =>
    rw [openWaiting]
    split
    · rename_i hNone
      have hEmpty : r.waiting = [] := List.isEmpty_iff.mp hNone
      refine .ok ⟨.refl ⟨h.graph, h.size, h.known, fun p hp => ?_⟩, hEmpty⟩
      rw [hEmpty] at hp
      cases hp
    · have hRound : Opens g (since + 1) r.waiting.reverse { r with waiting := [] } := by
        refine ⟨h.graph, h.size, fun p hp => ?_, nofun⟩
        rcases h.known p hp with hOpened | hWaiting | hTodo
        · exact .inl (hOpened.mono (fun _ => id) rfl)
        · exact .inr (.inr (List.mem_reverse.mpr hWaiting))
        · cases hTodo
      refine .bind (hRound.openAll hOrdered fun q hq => ?_) fun r' hFirst => ?_
      · have hWaits := h.waiting q (List.mem_reverse.mp hq)
        exact ⟨Nat.succ_le_succ hWaits.1, hWaits.2⟩
      · have hLater := ih hFirst.opens ((Nat.add_right_comm since 1 rounds).trans hRounds)
        exact hLater.imp fun r'' ⟨hRest, hEmpty⟩ =>
          ⟨.trans (fun p hp => hFirst.met p hp) hRest, hEmpty⟩

/-- A document that has been read: all nodes that are met are opened. -/
structure Complete (g : Graph) (r : Reading) : Prop where
  graph : r.graph = g
  size : r.meanings.size = g.size
  opened : ∀ p, r.Met p → Opened g r p

/-- A document is read, or one of its scalars is refused. -/
theorem opening_ends (hOrdered : g.IsOrdered) {root : Place} (hRoot : root < g.size) :
    Ends (fun _ => g.IsFaulty) (fun r => Complete g r ∧ r.Met root)
      ((start g).meet root >>= (openWaiting g.size)) := by
  have hStart : Opens g 0 [] (start g) := by
    refine ⟨rfl, by simp [start], fun p hp => ?_, nofun⟩
    have hNone : (start g).meaning? p = none := by
      simp only [meaning?, start, Array.getD_eq_getD_getElem?, Array.getElem?_replicate]
      split <;> rfl
    rw [Met, hNone] at hp
    cases hp
  refine .bind (hStart.meet ⟨Nat.zero_le _, hRoot⟩) fun r ⟨hFirst, hMet⟩ => ?_
  have hRounds := openWaiting_opened hFirst.opens hOrdered (Nat.zero_add _)
  refine hRounds.imp fun r' ⟨hRest, hEmpty⟩ => ?_
  refine ⟨⟨hRest.opens.graph, hRest.opens.size, fun p hp => ?_⟩, hRest.met _ hMet⟩
  rcases hRest.opens.known p hp with hOpened | hWaiting | hTodo
  · exact hOpened
  · rw [hEmpty] at hWaiting
    cases hWaiting
  · cases hTodo

end

/-! ## Settling -/

/-- The value of a node as far as it is known. -/
def settledAt (vs : Array (Option Value)) (p : Place) : Value := (vs.getD p none).getD .null

/-- The values that are known are what the nodes stand for, and those of their parts are known. -/
def Settles (r : Reading) (vs : Array (Option Value)) : Prop :=
  ∀ p v, vs.getD p none = some v → ∃ m, r.meaning? p = some m ∧
    (∀ q ∈ m.parts, (vs.getD q none).isSome = true) ∧ v = r.valueFrom (settledAt vs) m

/-- What a node stands for depends on the values of its parts. -/
theorem valueFrom_congr {m : Meaning} {f f' : Place → Value} (h : ∀ q ∈ m.parts, f q = f' q) :
    r.valueFrom f m = r.valueFrom f' m := by
  have hEntries : ∀ es : List Entry, (∀ q ∈ es.flatMap (fun e => [e.1, e.2]), f q = f' q) →
      ∀ e ∈ es, f e.1 = f' e.1 ∧ f e.2 = f' e.2 := fun es h e he =>
    ⟨h _ (List.mem_flatMap.mpr ⟨e, he, by simp⟩), h _ (List.mem_flatMap.mpr ⟨e, he, by simp⟩)⟩
  have hPut : ∀ es : List Entry, (∀ q ∈ es.flatMap (fun e => [e.1, e.2]), f q = f' q) →
      r.entryValues f es = r.entryValues f' es := fun es h => by
    rw [entryValues, entryValues]
    refine congrArg (List.map Prod.snd) (List.foldl_ext _ _ _ fun seen e he => ?_)
    rw [(hEntries es h e he).1, (hEntries es h e he).2]
  cases m with
  | plain v o => rfl
  | list items => exact congrArg Value.list (List.map_congr_left h)
  | map es => exact congrArg Value.map (hPut es h)
  | set es => exact congrArg (fun vs => Value.set (SetOrder.arrange (vs.map (·.1)))) (hPut es h)
  | pairs es =>
    refine congrArg Value.list (List.map_congr_left fun e he => ?_)
    rw [(hEntries es h e he).1, (hEntries es h e he).2]

theorem settleOnce_size (vs : Array (Option Value)) : (r.settleOnce vs).size = vs.size := by
  simp [settleOnce]

theorem mapIdx_at {vs : Array (Option Value)} {f : Nat → Option Value → Option Value}
    (hp : p < vs.size) : (vs.mapIdx f).getD p none = f p (vs.getD p none) := by
  simp [Array.getD_eq_getD_getElem?, hp]

theorem settleOnce_at {vs : Array (Option Value)} (hp : p < vs.size) :
    (r.settleOnce vs).getD p none =
      match vs.getD p none, r.meaning? p with
      | none, some m =>
        if m.parts.all fun q => (vs.getD q none).isSome then some (r.valueFrom (settledAt vs) m)
        else none
      | v, _ => v :=
  mapIdx_at hp

/-- What is known stays. -/
theorem settleOnce_keeps {vs : Array (Option Value)} {v : Value} (h : vs.getD p none = some v) :
    (r.settleOnce vs).getD p none = some v := by
  have hp : p < vs.size := by
    rcases Nat.lt_or_ge p vs.size with hp | hp
    · exact hp
    · rw [Array.getD_eq_getD_getElem?, Array.getElem?_eq_none hp] at h
      cases h
  rw [settleOnce_at hp, h]

theorem Settles.settleOnce {vs : Array (Option Value)} (h : r.Settles vs) :
    r.Settles (r.settleOnce vs) := by
  have hKeeps : ∀ q, (vs.getD q none).isSome = true →
      ((r.settleOnce vs).getD q none).isSome = true ∧
        settledAt vs q = settledAt (r.settleOnce vs) q := fun q hq => by
    obtain ⟨v, hv⟩ := Option.isSome_iff_exists.mp hq
    simp [settledAt, settleOnce_keeps hv, hv]
  have hStill : ∀ m : Meaning, (∀ q ∈ m.parts, (vs.getD q none).isSome = true) →
      (∀ q ∈ m.parts, ((r.settleOnce vs).getD q none).isSome = true) ∧
        r.valueFrom (settledAt vs) m = r.valueFrom (settledAt (r.settleOnce vs)) m := fun m hm =>
    ⟨fun q hq => (hKeeps q (hm q hq)).1, valueFrom_congr fun q hq => (hKeeps q (hm q hq)).2⟩
  intro p v hv
  cases hOld : vs.getD p none with
  | some v' =>
    obtain ⟨m, hMeaning, hParts, hValue⟩ := h p v' hOld
    rw [settleOnce_keeps hOld] at hv
    obtain rfl := Option.some.inj hv
    exact ⟨m, hMeaning, (hStill m hParts).1, hValue.trans (hStill m hParts).2⟩
  | none =>
    have hp : p < vs.size := by
      rcases Nat.lt_or_ge p vs.size with hp | hp
      · exact hp
      · rw [Array.getD_eq_getD_getElem?, Array.getElem?_eq_none (settleOnce_size vs ▸ hp)] at hv
        cases hv
    rw [settleOnce_at hp, hOld] at hv
    cases hMeaning : r.meaning? p with
    | none =>
      rw [hMeaning] at hv
      cases hv
    | some m =>
      rw [hMeaning] at hv
      dsimp only at hv
      split at hv
      · rename_i hAll
        have hParts : ∀ q ∈ m.parts, (vs.getD q none).isSome = true := List.all_eq_true.mp hAll
        exact ⟨m, rfl, (hStill m hParts).1, (Option.some.inj hv) ▸ (hStill m hParts).2⟩
      · cases hv

theorem count_none (vs : Array (Option Value)) :
    vs.count none = ((List.range vs.size).filter fun p => (vs.getD p none).isNone).length := by
  have hList : vs.toList = (List.range vs.size).map fun p => vs.getD p none := by
    refine List.ext_getElem (by simp) fun p hp _ => ?_
    have hp : p < vs.size := by simpa using hp
    simp [Array.getD_eq_getD_getElem?, hp]
  rw [← Array.count_toList, hList, List.count, List.countP_map, List.countP_eq_length_filter]
  refine congrArg List.length (List.filter_congr fun p _ => ?_)
  show (vs.getD p none == none) = (vs.getD p none).isNone
  cases vs.getD p none <;> rfl

/-- What is unknown has been so before. -/
theorem settleOnce_unknown (vs : Array (Option Value)) :
    ((List.range vs.size).filter fun p => ((r.settleOnce vs).getD p none).isNone).Sublist
      ((List.range vs.size).filter fun p => (vs.getD p none).isNone) := by
  refine List.monotone_filter_right (List.range vs.size) fun p hp => ?_
  cases hOld : vs.getD p none with
  | none => rfl
  | some v =>
    rw [settleOnce_keeps hOld] at hp
    cases hp

theorem settleOnce_count (vs : Array (Option Value)) :
    (r.settleOnce vs).count none ≤ vs.count none := by
  rw [count_none, count_none, settleOnce_size]
  exact (settleOnce_unknown vs).length_le

/-- If as many values are unknown as before, then the same are. -/
theorem settleOnce_none {vs : Array (Option Value)}
    (h : (r.settleOnce vs).count none = vs.count none) (hp : p < vs.size)
    (hNone : vs.getD p none = none) : (r.settleOnce vs).getD p none = none := by
  rw [count_none, count_none, settleOnce_size] at h
  have hSame := (settleOnce_unknown vs).eq_of_length h
  have hIn : p ∈ (List.range vs.size).filter fun p => (vs.getD p none).isNone :=
    List.mem_filter.mpr ⟨List.mem_range.mpr hp, by rw [hNone]; rfl⟩
  rw [← hSame] at hIn
  exact Option.isNone_iff_eq_none.mp (List.mem_filter.mp hIn).2

section

variable [Limits] (h : Complete g r) (hOrdered : g.IsOrdered)
include h

theorem Complete.lt_size (hMet : r.Met p) : p < g.size := by
  rcases Nat.lt_or_ge p r.meanings.size with hp | hp
  · exact h.size ▸ hp
  · rw [Met, meaning?, Array.getD_eq_getD_getElem?, Array.getElem?_eq_none hp] at hMet
    cases hMet

include hOrdered

/-- The parts of a node that is met lie behind it and are met. -/
theorem Complete.parts (hMet : r.Met p) :
    ∃ m, r.meaning? p = some m ∧ ∀ q ∈ m.parts, p < q ∧ r.Met q := by
  have hOrders := hOrdered p (h.lt_size hMet)
  cases h.opened p hMet with
  | scalar hTag hValue hMeaning => exact ⟨_, hMeaning, nofun⟩
  | @sequence items hTag hContent hMeaning hMets =>
    refine ⟨_, hMeaning, fun q hq => ⟨?_, hMets q hq⟩⟩
    cases hOrders with
    | scalar hTag' => simp [hTag, Tag.isCollection] at hTag'
    | @sequence items' _ hContent' hItems =>
      obtain rfl : items = items' := Content.sequence.inj (hContent.symm.trans hContent')
      exact (hItems q hq).1
    | mapping hTag' => simp [hTag] at hTag'
  | @mapping es hTag hContent hMeaning hMets =>
    refine ⟨_, hMeaning, fun q hq => ?_⟩
    obtain ⟨e, he, hq⟩ := List.mem_flatMap.mp hq
    have hPart : q = e.1 ∨ q = e.2 := by simpa using hq
    cases hOrders with
    | scalar hTag' => simp [hTag, Tag.isCollection] at hTag'
    | sequence hTag' => simp [hTag] at hTag'
    | @mapping es' _ hContent' hKeys hValues =>
      obtain rfl : es = es' := Content.mapping.inj (hContent.symm.trans hContent')
      rcases hPart with rfl | rfl
      · exact ⟨(hKeys e he).1, (hMets e he).1⟩
      · exact ⟨(hValues e he).1, (hMets e he).2⟩

/-- Once no more values become known, those of all nodes that are met are. -/
theorem Complete.settled {vs : Array (Option Value)} (hSize : vs.size = g.size)
    (hSame : (r.settleOnce vs).count none = vs.count none) (hMet : r.Met p) :
    (vs.getD p none).isSome = true := by
  -- by induction from the last node of all: the parts of a node lie behind it
  generalize hLeft : g.size - p = n
  induction n using Nat.strongRecOn generalizing p with
  | ind n ih =>
    obtain ⟨m, hMeaning, hParts⟩ := h.parts hOrdered hMet
    have hp : p < g.size := h.lt_size hMet
    have hAll : m.parts.all (fun q => (vs.getD q none).isSome) = true := by
      refine List.all_eq_true.mpr fun q hq => ?_
      have hq : p < q ∧ r.Met q := hParts q hq
      have hLess : g.size - q < n := hLeft ▸ Nat.sub_lt_sub_left hp hq.1
      exact ih _ hLess hq.2 rfl
    cases hNone : vs.getD p none with
    | some v => rfl
    | none =>
      have hStill := settleOnce_none hSame (hSize ▸ hp) hNone
      rw [settleOnce_at (hSize ▸ hp), hNone, hMeaning] at hStill
      dsimp only at hStill
      rw [if_pos hAll] at hStill
      cases hStill

/-- There are rounds enough to settle all nodes that are met. -/
theorem settle_complete {rounds : Nat} {vs : Array (Option Value)} (hSize : vs.size = g.size)
    (hSettles : r.Settles vs) (hRounds : vs.count none ≤ rounds) :
    r.Settles (r.settle rounds vs) ∧
      ∀ p, r.Met p → ((r.settle rounds vs).getD p none).isSome = true := by
  induction rounds generalizing vs with
  | zero =>
    have hCount := settleOnce_count (r := r) vs
    have hSame : (r.settleOnce vs).count none = vs.count none := by omega
    exact ⟨hSettles, fun p hMet => h.settled hOrdered hSize hSame hMet⟩
  | succ rounds ih =>
    rw [settle]
    split
    · rename_i hSame
      exact ⟨hSettles, fun p hMet => h.settled hOrdered hSize hSame hMet⟩
    · rename_i hLess
      have hCount := settleOnce_count (r := r) vs
      exact ih ((settleOnce_size vs).trans hSize) hSettles.settleOnce (by omega)

/-- The values of the nodes that are met are what they stand for in terms of one another. -/
theorem Complete.value_spec :
    ∃ value : Place → Value, ∀ p, r.Met p → r.value p = value p ∧
      ∃ m, r.meaning? p = some m ∧ value p = r.valueFrom value m := by
  have hNone : ∀ p, (Array.replicate g.size (none : Option Value)).getD p none = none := fun p => by
    simp only [Array.getD_eq_getD_getElem?, Array.getElem?_replicate]
    split <;> rfl
  have hStart : r.Settles (Array.replicate g.size none) := fun p v hv => by
    rw [hNone p] at hv
    cases hv
  have hRounds : (Array.replicate g.size (none : Option Value)).count none ≤ g.size := by
    rw [count_none]
    exact Nat.le_trans (List.length_filter_le _ _) (by simp)
  obtain ⟨hSettles, hSome⟩ := settle_complete h hOrdered Array.size_replicate hStart hRounds
  refine ⟨settledAt (r.settle g.size (Array.replicate g.size none)), fun p hMet => ?_⟩
  obtain ⟨v, hv⟩ := Option.isSome_iff_exists.mp (hSome p hMet)
  obtain ⟨m, hMeaning, -, hValue⟩ := hSettles p v hv
  have hSettled : settledAt (r.settle g.size (Array.replicate g.size none)) p = v := by
    rw [settledAt, hv]
    rfl
  refine ⟨?_, m, hMeaning, hSettled.trans hValue⟩
  rw [hSettled, Reading.value, h.graph]
  dsimp only
  rw [hv]

end

end Reading

end EntityGraph.Markup
