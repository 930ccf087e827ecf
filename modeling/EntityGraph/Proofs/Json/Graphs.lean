import EntityGraph.Proofs.Json.Nodes
import EntityGraph.Proofs.Markup.Ordered

/-!
# Graphs of documents

The nodes of a document lie side by side in its graph, each at a place of its own.  A value lies
before its parts, so that no value leads back to itself.

* `Lies`: some nodes lie in a graph;
* `Tree.nodes_places`: the places that a tree takes;
* `Document.graph_read`: the graph that is read from the text of a document;
* `Tree.isOrdered`: in the graph of a tree every part lies behind the whole.
-/

namespace EntityGraph.Json

open Markup

/-! ## Places -/

mutual

/-- The nodes of a tree take the places from the first on. -/
theorem Tree.nodes_places (p : Place) :
    ∀ t : Tree, ((t.nodes p).map (·.1)).Perm (List.range' p t.size)
  | .null | .bool _ | .number _ | .string _ | .emptyArray _ | .emptyObject _ => .refl _
  | .array items => (items.nodes_places (p + 1)).cons p
  | .object members => (members.nodes_places (p + 1)).cons p

theorem Items.nodes_places (p : Place) :
    ∀ items : Items, ((items.nodes p).map (·.1)).Perm (List.range' p items.size)
  | .last _ item _ => item.nodes_places p
  | .cons _ item _ rest => by
    rw [Items.nodes, List.map_append, Items.size, ← List.range'_append_1]
    exact ((rest.nodes_places _).append (item.nodes_places p)).trans List.perm_append_comm

theorem Members.nodes_places (p : Place) :
    ∀ members : Members, ((members.nodes p).map (·.1)).Perm (List.range' p members.size)
  | .last key _ item _ => by
    rw [Members.nodes, List.map_append, Members.size, ← List.range'_append_1]
    exact ((item.nodes_places _).append_right [p]).trans List.perm_append_comm
  | .cons key _ item _ rest => by
    rw [Members.nodes, List.map_append, List.map_append, Members.size, ← List.range'_append_1,
      ← List.range'_append_1]
    have hItem := ((item.nodes_places (p + 1)).append_right [p]).trans List.perm_append_comm
    exact ((rest.nodes_places _).append hItem).trans List.perm_append_comm

end

/-- Every place up to the size of a tree is that of a node. -/
theorem Tree.mem_places {p : Place} (t : Tree) (hp : p < t.size) : p ∈ (t.nodes 0).map (·.1) :=
  (t.nodes_places 0).mem_iff.mpr (List.mem_range'_1.mpr ⟨Nat.zero_le _, by rwa [Nat.zero_add]⟩)

/-! ## Graphs -/

/-- Some nodes lie in a graph. -/
def Lies (g : Graph) (ns : List Shape) : Prop :=
  ∀ n ∈ ns, (g.at n.1).tag = n.2.1 ∧ (g.at n.1).content = n.2.2

theorem lies_append {g : Graph} {ns ns' : List Shape} :
    Lies g (ns ++ ns') ↔ Lies g ns ∧ Lies g ns' := List.forall_mem_append

theorem lies_cons {g : Graph} {n : Shape} {ns : List Shape} :
    Lies g (n :: ns) ↔ ((g.at n.1).tag = n.2.1 ∧ (g.at n.1).content = n.2.2) ∧ Lies g ns :=
  List.forall_mem_cons

theorem set_at {g : Graph} {p q : Place} {n : Node} (hq : q < g.size) :
    Graph.at (g.set! q n) p = if p = q then n else g.at p := by
  by_cases hp : p = q
  · subst hp
    simp [Graph.at, hq]
  · have hOther : q ≠ p := fun hEq => hp hEq.symm
    simp [Graph.at, Array.getD_eq_getD_getElem?, hp, hOther]

/-- Nodes that are put at places of their own stay there. -/
theorem foldl_at {ns : List (Place × Node)} {g : Graph} (hSize : ∀ n ∈ ns, n.1 < g.size)
    (hNodup : (ns.map (·.1)).Nodup) :
    (∀ n ∈ ns, Graph.at (ns.foldl (fun g n => g.set! n.1 n.2) g) n.1 = n.2) ∧
      ∀ p ∉ ns.map (·.1), Graph.at (ns.foldl (fun g n => g.set! n.1 n.2) g) p = g.at p := by
  induction ns generalizing g with
  | nil => exact ⟨nofun, fun _ _ => rfl⟩
  | cons n ns ih =>
    obtain ⟨hNew, hNodup⟩ := List.nodup_cons.mp hNodup
    have hFirst : n.1 < g.size := hSize n List.mem_cons_self
    have hRest : ∀ m ∈ ns, m.1 < (g.set! n.1 n.2).size := fun m hm => by
      simpa using hSize m (.tail _ hm)
    obtain ⟨hIn, hOut⟩ := ih hRest hNodup
    refine ⟨fun m hm => ?_, fun p hp => ?_⟩
    · rcases List.mem_cons.mp hm with rfl | hm
      · exact (hOut _ hNew).trans (by rw [set_at hFirst, if_pos rfl])
      · exact hIn m hm
    · obtain ⟨hp, hpRest⟩ := not_or.mp (mt List.mem_cons.mpr hp)
      exact (hOut p hpRest).trans (by rw [set_at hFirst, if_neg hp])

theorem foldl_size (ns : List (Place × Node)) (g : Graph) :
    (ns.foldl (fun (g : Graph) n => g.set! n.1 n.2) g).size = g.size := by
  induction ns generalizing g with
  | nil => rfl
  | cons n ns ih => simpa using ih (g.set! n.1 n.2)

/-- The graph of a tree. -/
structure Tree.IsGraph (t : Tree) (g : Graph) : Prop where
  size : g.size = t.size
  lies : Lies g (t.nodes 0)

/-- What has been read of a tree is its graph. -/
theorem Tree.isGraph {t : Tree} {r : NodeReader} (hFree : r.free = t.size)
    (hNodes : r.nodes.map shape = t.nodes 0) : t.IsGraph r.graph := by
  have hPlaces : (r.nodes.map (·.1)).Perm (List.range' 0 t.size) := by
    have h : r.nodes.map (·.1) = (r.nodes.map shape).map (·.1) := by
      rw [List.map_map]
      rfl
    rw [h, hNodes]
    exact t.nodes_places 0
  have hSize : (Array.replicate r.free (default : Node)).size = t.size := by simp [hFree]
  have hNodup : (r.nodes.map (·.1)).Nodup := hPlaces.nodup_iff.mpr List.nodup_range'
  have hBound : ∀ n ∈ r.nodes, n.1 < (Array.replicate r.free (default : Node)).size := by
    intro n hn
    have hPlace := hPlaces.mem_iff.mp (List.mem_map_of_mem hn)
    rw [hSize]
    simpa using (List.mem_range'_1.mp hPlace).2
  refine ⟨(foldl_size _ _).trans hSize, fun n hn => ?_⟩
  rw [← hNodes] at hn
  obtain ⟨m, hm, rfl⟩ := List.mem_map.mp hn
  rw [show r.graph.at (shape m).1 = m.2 from (foldl_at hBound hNodup).1 m hm]
  exact ⟨rfl, rfl⟩

/-! ## Order -/

theorem Tree.size_pos (t : Tree) : 0 < t.size := by
  cases t <;> simp [Tree.size]

/-- The node of a tree lies at the first of its places. -/
theorem Tree.lies_root {g : Graph} {p : Place} (t : Tree) (h : Lies g (t.nodes p)) :
    (g.at p).tag = t.tag ∧ (g.at p).content = t.content p := by
  cases t <;> exact (lies_cons.mp h).1

theorem Items.places_bounds {p q : Nat} :
    ∀ items : Items, q ∈ items.places p → p ≤ q ∧ q < p + items.size
  | .last _ item _, hq => by
    obtain rfl := List.mem_singleton.mp hq
    exact ⟨Nat.le_refl _, Nat.lt_add_of_pos_right item.size_pos⟩
  | .cons _ item _ rest, hq => by
    have hItem := item.size_pos
    rw [Items.size]
    rcases List.mem_cons.mp hq with rfl | hq
    · omega
    · have hRest := rest.places_bounds hq
      omega

theorem Members.places_bounds {g : Graph} {p : Nat} {e : Nat × Nat} :
    ∀ members : Members, Lies g (members.nodes p) → e ∈ members.places p →
      (p ≤ e.1 ∧ e.1 < p + members.size ∧ (g.at e.1).tag = .str) ∧
        (p ≤ e.2 ∧ e.2 < p + members.size)
  | .last key _ item _, h, he => by
    obtain rfl := List.mem_singleton.mp he
    have hItem := item.size_pos
    have hKey := (lies_cons.mp (lies_append.mp h).2).1
    rw [Members.size]
    exact ⟨⟨Nat.le_refl _, by omega, hKey.1⟩, by omega⟩
  | .cons key _ item _ rest, h, he => by
    have hItem := item.size_pos
    obtain ⟨hRest, hFirst⟩ := lies_append.mp h
    have hKey := (lies_cons.mp (lies_append.mp hFirst).2).1
    rw [Members.size]
    rcases List.mem_cons.mp he with rfl | he
    · exact ⟨⟨Nat.le_refl _, by omega, hKey.1⟩, by omega⟩
    · obtain ⟨⟨hLow, hHigh, hTag⟩, hValue⟩ := rest.places_bounds hRest he
      exact ⟨⟨by omega, by omega, hTag⟩, by omega⟩

theorem Number.tag_scalar (n : Number) : n.tag.isCollection = false := by
  unfold Number.tag
  split_ifs <;> rfl

mutual

/-- The nodes of a tree are ordered. -/
theorem Tree.orders {g : Graph} {p : Nat} (t : Tree) (h : Lies g (t.nodes p))
    (hSize : p + t.size ≤ g.size) : ∀ n ∈ t.nodes p, g.Orders n.1 := by
  obtain ⟨hTag, hContent⟩ := t.lies_root h
  have hLeaf : t.tag.isCollection = false → ∀ n ∈ [(p, t.tag, t.content p)], g.Orders n.1 :=
    fun hScalar n hn => List.mem_singleton.mp hn ▸ .scalar (by rw [hTag, hScalar])
  cases t with
  | array items =>
    rw [Tree.size] at hSize
    obtain ⟨-, hItems⟩ := lies_cons.mp h
    refine List.forall_mem_cons.mpr ⟨.sequence hTag hContent fun q hq => ?_,
      items.orders hItems (by omega)⟩
    obtain ⟨hLow, hHigh⟩ := items.places_bounds hq
    exact ⟨hLow, Nat.lt_of_lt_of_le hHigh (by omega)⟩
  | object members =>
    rw [Tree.size] at hSize
    obtain ⟨-, hMembers⟩ := lies_cons.mp h
    refine List.forall_mem_cons.mpr ⟨.mapping hTag hContent (fun e he => ?_) fun e he => ?_,
      members.orders hMembers (by omega)⟩
    · obtain ⟨⟨hLow, hHigh, hKey⟩, -⟩ := members.places_bounds hMembers he
      exact ⟨hLow, Nat.lt_of_lt_of_le hHigh (by omega), hKey⟩
    · obtain ⟨-, hLow, hHigh⟩ := members.places_bounds hMembers he
      exact ⟨hLow, Nat.lt_of_lt_of_le hHigh (by omega)⟩
  | null => exact hLeaf rfl
  | bool b => exact hLeaf rfl
  | number n => exact hLeaf n.tag_scalar
  | string ps => exact hLeaf rfl
  | emptyArray gap =>
    exact fun n hn => List.mem_singleton.mp hn ▸ .sequence hTag hContent nofun
  | emptyObject gap =>
    exact fun n hn => List.mem_singleton.mp hn ▸ .mapping hTag hContent nofun nofun

theorem Items.orders {g : Graph} {p : Nat} (items : Items) (h : Lies g (items.nodes p))
    (hSize : p + items.size ≤ g.size) : ∀ n ∈ items.nodes p, g.Orders n.1 := by
  cases items with
  | last before item after => exact item.orders h hSize
  | cons before item after rest =>
    obtain ⟨hRest, hItem⟩ := lies_append.mp h
    rw [Items.size] at hSize
    exact List.forall_mem_append.mpr ⟨rest.orders hRest (by omega), item.orders hItem (by omega)⟩

theorem Members.orders {g : Graph} {p : Nat} (members : Members) (h : Lies g (members.nodes p))
    (hSize : p + members.size ≤ g.size) : ∀ n ∈ members.nodes p, g.Orders n.1 := by
  have hKey : ∀ {key : Key}, (g.at p).tag = .str →
      ∀ n ∈ [((p, .str, .scalar (Pieces.points key.pieces)) : Shape)], g.Orders n.1 :=
    fun hTag n hn => List.mem_singleton.mp hn ▸ .scalar (by rw [hTag]; rfl)
  cases members with
  | last key before item after =>
    obtain ⟨hItem, hFirst⟩ := lies_append.mp h
    rw [Members.size] at hSize
    exact List.forall_mem_append.mpr
      ⟨item.orders hItem (by omega), hKey (lies_cons.mp hFirst).1.1⟩
  | cons key before item after rest =>
    obtain ⟨hRest, hMember⟩ := lies_append.mp h
    obtain ⟨hItem, hFirst⟩ := lies_append.mp hMember
    rw [Members.size] at hSize
    exact List.forall_mem_append.mpr ⟨rest.orders hRest (by omega),
      List.forall_mem_append.mpr ⟨item.orders hItem (by omega), hKey (lies_cons.mp hFirst).1.1⟩⟩

end

/-- In the graph of a tree every part lies behind the whole. -/
theorem Tree.isOrdered {t : Tree} {g : Graph} (h : t.IsGraph g) : g.IsOrdered := by
  intro p hp
  obtain ⟨n, hn, rfl⟩ := List.mem_map.mp (t.mem_places (h.size ▸ hp))
  exact t.orders h.lies (Nat.le_of_eq ((Nat.zero_add _).trans h.size.symm)) n hn

/-! ## Documents -/

section

variable {F K : Prop} {r : NodeReader}

theorem Follows.end_cases (h : Follows F K [.streamEnd] r.tokens) :
    (∃ f, r.peek = .error f) ∧ F ∨ ∃ t, t.symbol = .streamEnd ∧ r.peek = .ok t ∧ K := by
  obtain ⟨tokens, room, nodes, free, anchors, handles⟩ := r
  generalize hSymbols : [Symbol.streamEnd] = ss at h
  cases h with
  | finish hSymbol hK => exact .inr ⟨_, hSymbol, rfl, hK⟩
  | cons hSymbol h => exact absurd (List.cons.inj hSymbols).1.symm hSymbol
  | fail hF => exact .inl ⟨⟨_, rfl⟩, hF⟩

theorem checkEnd_ends {fuel : Nat} {start : Mark} (h : Follows F K [.streamEnd] r.tokens) :
    Ends (fun _ => F) (fun _ => K) (Graph.checkEnd (fuel + 1) start r) := by
  rw [Graph.checkEnd, Graph.skipEnds]
  rcases Follows.end_cases h with ⟨⟨failure, hFail⟩, hF⟩ | ⟨t, hSymbol, hPeek, hK⟩
  · rw [hFail]
    exact .error hF
  · obtain ⟨symbol, start, stop⟩ := t
    obtain rfl : symbol = .streamEnd := hSymbol
    rw [hPeek]
    show Ends _ _ (r.peek >>= _)
    rw [hPeek]
    exact .ok hK

/-- A text that starts with the content of a node is a document without directives. -/
theorem readDocument_ends {fuel : Nat} {ss : List Symbol} {R : Option (Place × Graph) → Prop}
    (h : Follows F K ss r.tokens) (hs : StartsWith IsContent ss)
    (hNext : Ends (fun _ => F) R
      (Graph.read fuel .block { r with handles := standardHandles } >>= fun x =>
        Graph.checkEnd fuel (x.2.graph.at x.1).mark x.2 >>= fun _ =>
          .ok (some (x.1, x.2.graph)))) :
    Ends (fun _ => F) R (Graph.readDocument fuel r) := by
  rcases hs.peek_cases id h with ⟨⟨failure, hFail⟩, hF⟩ | ⟨⟨symbol, start, stop⟩, hContent, hPeek⟩
  · rw [Graph.readDocument, hFail]
    exact .error hF
  · have hEq : Graph.readDocument fuel r =
        Graph.read fuel .block { r with handles := standardHandles } >>= fun x =>
          Graph.checkEnd fuel (x.2.graph.at x.1).mark x.2 >>= fun _ =>
            .ok (some (x.1, x.2.graph)) := by
      rw [Graph.readDocument, hPeek]
      cases symbol <;> first | exact False.elim hContent | rfl
    rw [hEq]
    exact hNext

end

/-- The graph of the text of a document is that of its tree, if there is room for its nodes. -/
theorem Document.graph_read [Limits] (d : Document) :
    Ends (fun _ => (d.isLaid && d.tree.depth ≤ Limits.nodes) = false)
      (fun x => (d.isLaid && d.tree.depth ≤ Limits.nodes) = true ∧
        ∃ g, x = some (0, g) ∧ d.tree.IsGraph g)
      (Graph.document? d.chars) := by
  have hLength : d.tree.symbols.length ≤ Lexer.tokenBound d.chars := by
    have hTree := d.tree.symbols_length
    simp only [Lexer.tokenBound, Document.chars, List.length_append]
    omega
  have hNear : d.obeys nearness = d.tree.obeys nearness := by
    show (true && d.tree.obeys nearness && true) = _
    simp
  have hLaid : (d.isLaid && d.tree.depth ≤ Limits.nodes) =
      (d.obeys spacing && d.tree.fits Limits.nodes) := by
    rw [Document.isLaid, Tree.fits, hNear, Bool.and_assoc]
  have hNotLaid : d.isLaid = false →
      (d.obeys spacing && d.tree.fits Limits.nodes) = false := fun hNot => by simp [← hLaid, hNot]
  have hTokens := d.stream_follows.mono hNotLaid
  rw [hLaid, Graph.document?, Graph.stepBound]
  refine readDocument_ends hTokens (d.tree.symbols_startsWith.append _) ?_
  refine .bind (d.tree.read_ends
    (r := { tokens := _, room := Limits.nodes, handles := standardHandles }) hTokens
    (Nat.mul_le_mul_left 5 hLength) fun hDeep => by simp [hDeep]) ?_
  rintro ⟨root, r⟩ ⟨rfl, hFits, hRead⟩
  refine .bind (checkEnd_ends hRead.tokens) fun _ hSpacing => .ok ⟨?_, r.graph, rfl, ?_⟩
  · simp [hSpacing, hFits]
  · exact Tree.isGraph (hRead.free.trans (Nat.zero_add _)) (hRead.nodes.trans (List.append_nil _))

end EntityGraph.Json
