import EntityGraph.Proofs.Failing
import EntityGraph.Proofs.Json.Tokens

/-!
# Nodes of documents

The nodes of a document follow its tree as well.  Every value and every name has a node of its own,
and a value comes before its parts.  They are read as far as there is room for the collections inside
one another.

* `Tree.size`, `Tree.nodes`: the places that a tree takes, and the nodes at them;
* `Tree.depth`, `Tree.fits`: its collections inside one another, and a tree that can be read;
* `Tree.read_ends`: the nodes that are read from the tokens of a tree.
-/

namespace EntityGraph.Json

open Markup

/-! ## The nodes of a tree -/

mutual

/-- The number of values and names in a tree. -/
def Tree.size : Tree → Nat
  | .array items => items.size + 1
  | .object members => members.size + 1
  | _ => 1

def Items.size : Items → Nat
  | .last _ item _ => item.size
  | .cons _ item _ rest => item.size + rest.size

def Members.size : Members → Nat
  | .last _ _ item _ => 1 + item.size
  | .cons _ _ item _ rest => 1 + item.size + rest.size

end

/-- The places of items, given that of the first. -/
def Items.places (p : Place) : Items → List Place
  | .last _ _ _ => [p]
  | .cons _ item _ rest => p :: rest.places (p + item.size)

/-- The places of names and values, given that of the first name. -/
def Members.places (p : Place) : Members → List (Place × Place)
  | .last _ _ _ _ => [(p, p + 1)]
  | .cons _ _ item _ rest => (p, p + 1) :: rest.places (p + (1 + item.size))

def Tree.tag : Tree → Tag
  | .null => .null
  | .bool _ => .bool
  | .number n => n.tag
  | .string _ => .str
  | .emptyArray _ | .array _ => .seq
  | .emptyObject _ | .object _ => .map

/-- What the node of a tree at a place holds. -/
def Tree.content (p : Place) : Tree → Content
  | .null => .scalar (pointsOf Tree.null.chars)
  | .bool b => .scalar (pointsOf (Tree.bool b).chars)
  | .number n => .scalar (pointsOf n.chars)
  | .string ps => .scalar (Pieces.points ps)
  | .emptyArray _ => .sequence []
  | .array items => .sequence (items.places (p + 1))
  | .emptyObject _ => .mapping []
  | .object members => .mapping (members.places (p + 1))

/-- A node without its mark. -/
abbrev Shape := Place × Tag × Content

def shape (n : Place × Node) : Shape := (n.1, n.2.tag, n.2.content)

mutual

/-- The nodes of a tree from a place on, the last one first. -/
def Tree.nodes (p : Place) : Tree → List Shape
  | .array items => (p, .seq, (Tree.array items).content p) :: items.nodes (p + 1)
  | .object members => (p, .map, (Tree.object members).content p) :: members.nodes (p + 1)
  | t => [(p, t.tag, t.content p)]

def Items.nodes (p : Place) : Items → List Shape
  | .last _ item _ => item.nodes p
  | .cons _ item _ rest => rest.nodes (p + item.size) ++ item.nodes p

def Members.nodes (p : Place) : Members → List Shape
  | .last key _ item _ => item.nodes (p + 1) ++ [(p, .str, .scalar (Pieces.points key.pieces))]
  | .cons key _ item _ rest =>
    rest.nodes (p + (1 + item.size)) ++
      (item.nodes (p + 1) ++ [(p, .str, .scalar (Pieces.points key.pieces))])

end

/-! ## Room -/

mutual

/-- The number of collections inside one another in a tree. -/
def Tree.depth : Tree → Nat
  | .array items => items.depth + 1
  | .object members => members.depth + 1
  | .emptyArray _ | .emptyObject _ => 1
  | _ => 0

def Items.depth : Items → Nat
  | .last _ item _ => item.depth
  | .cons _ item _ rest => max item.depth rest.depth

def Members.depth : Members → Nat
  | .last _ _ item _ => item.depth
  | .cons _ _ item _ rest => max item.depth rest.depth

end

/-- A tree that can be read where there is room for so many collections. -/
def Tree.fits (room : Nat) (t : Tree) : Bool := t.obeys nearness && t.depth ≤ room

def Items.fit (room : Nat) (items : Items) : Bool := items.obey nearness && items.depth ≤ room

def Members.fit (room : Nat) (members : Members) : Bool :=
  members.obey nearness && members.depth ≤ room

section

variable {room : Nat} {key : Key} {before after : Gap} {item : Tree}

theorem Tree.fits_array {items : Items} :
    (Tree.array items).fits (room + 1) = items.fit room := by
  simp [Tree.fits, Items.fit, Tree.obeys, Tree.depth]

theorem Tree.fits_object {members : Members} :
    (Tree.object members).fits (room + 1) = members.fit room := by
  simp [Tree.fits, Members.fit, Tree.obeys, Tree.depth]

theorem Items.fit_last : (Items.last before item after).fit room = item.fits room := by
  rw [Items.fit, Items.obey_last fun _ => rfl, Items.depth, Tree.fits]

theorem Items.fit_cons {rest : Items} :
    (Items.cons before item after rest).fit room = (item.fits room && rest.fit room) := by
  rw [Items.fit, Items.obey_cons fun _ => rfl, Items.depth, Tree.fits, Items.fit, Bool.eq_iff_iff]
  simp only [Bool.and_eq_true, decide_eq_true_eq, Nat.max_le]
  exact and_and_and_comm

theorem Members.fit_last : (Members.last key before item after).fit room =
    (key.obeys nearness && item.fits room) := by
  rw [Members.fit, Members.obey_last fun _ => rfl, Members.depth, Tree.fits, Bool.and_assoc]

theorem Members.fit_cons {rest : Members} : (Members.cons key before item after rest).fit room =
    (key.obeys nearness && item.fits room && rest.fit room) := by
  rw [Members.fit, Members.obey_cons fun _ => rfl, Members.depth, Tree.fits, Members.fit,
    Bool.eq_iff_iff]
  simp only [Bool.and_eq_true, decide_eq_true_eq, Nat.max_le]
  rw [and_assoc, and_assoc, and_assoc, and_assoc, and_left_comm (a := item.depth ≤ room)]

end

/-! ## Streams in reading -/

variable {F K : Prop} {α : Type} {R : α → Prop} {s : Symbol} {ss : List Symbol} {r r' : NodeReader}

theorem Follows.peek_cases (h : Follows F K (s :: ss) r.tokens) (hs : s ≠ .streamEnd) :
    (∃ f, r.peek = .error f) ∧ F ∨
      ∃ t, t.symbol = s ∧ r.peek = .ok t ∧ Follows F K ss r.next.tokens := by
  obtain ⟨tokens, room, nodes, free, anchors, handles⟩ := r
  cases h with
  | finish hSymbol hK => exact absurd rfl hs
  | cons hSymbol h => exact .inr ⟨_, rfl, rfl, h⟩
  | fail hF => exact .inl ⟨⟨_, rfl⟩, hF⟩

theorem Follows.ends (h : Follows F K (s :: ss) r.tokens) (hs : s ≠ .streamEnd)
    {f : Token → Except Failure α}
    (hNext : ∀ t, t.symbol = s → r.peek = .ok t → Follows F K ss r.next.tokens →
      Ends (fun _ => F) R (f t)) : Ends (fun _ => F) R (r.peek >>= f) := by
  rcases Follows.peek_cases h hs with ⟨⟨failure, hFail⟩, hF⟩ | ⟨t, hSymbol, hPeek, hRest⟩
  · rw [hFail]
    exact .error hF
  · rw [hPeek]
    exact hNext t hSymbol hPeek hRest

/-- What a reader has read since: nodes at the next free places, with certain tokens after them. -/
structure HasRead (F K : Prop) (ss : List Symbol) (size : Nat) (nodes : List Shape)
    (r r' : NodeReader) : Prop where
  tokens : Follows F K ss r'.tokens
  room : r'.room = r.room
  free : r'.free = r.free + size
  nodes : r'.nodes.map shape = nodes ++ r.nodes.map shape

theorem HasRead.trans {ss' : List Symbol} {size size' : Nat} {nodes nodes' : List Shape}
    {rEnd : NodeReader} (h : HasRead F K ss size nodes r r')
    (h' : HasRead F K ss' size' nodes' r' rEnd) :
    HasRead F K ss' (size + size') (nodes' ++ nodes) r rEnd where
  tokens := h'.tokens
  room := h'.room.trans h.room
  free := by rw [h'.free, h.free, Nat.add_assoc]
  nodes := by rw [h'.nodes, h.nodes, List.append_assoc]

theorem HasRead.of_next {size : Nat} {nodes : List Shape}
    (h : HasRead F K ss size nodes r.next r') : HasRead F K ss size nodes r r' :=
  ⟨h.tokens, h.room, h.free, h.nodes⟩

/-- A token that starts the content of a node. -/
def IsContent : Symbol → Prop
  | .scalar .. | .openSequence | .openMapping => True
  | _ => False

/-- A row of tokens starts with one of some kind. -/
def StartsWith (P : Symbol → Prop) (ss : List Symbol) : Prop := ∃ s rest, ss = s :: rest ∧ P s

theorem StartsWith.append {P : Symbol → Prop} (h : StartsWith P ss) (ss' : List Symbol) :
    StartsWith P (ss ++ ss') := by
  obtain ⟨s, rest, rfl, hs⟩ := h
  exact ⟨s, rest ++ ss', rfl, hs⟩

theorem StartsWith.peek_cases {P : Symbol → Prop} (hs : StartsWith P ss) (hEnd : ¬ P .streamEnd)
    (h : Follows F K ss r.tokens) :
    (∃ f, r.peek = .error f) ∧ F ∨ ∃ t, P t.symbol ∧ r.peek = .ok t := by
  obtain ⟨s, ss, rfl, hs⟩ := hs
  have hSome : s ≠ .streamEnd := by
    rintro rfl
    exact hEnd hs
  rcases Follows.peek_cases h hSome with hFail | ⟨t, rfl, hPeek, -⟩
  · exact .inl hFail
  · exact .inr ⟨t, hs, hPeek⟩

theorem read_content {fuel : Nat} {context : Context} {t : Token} (hPeek : r.peek = .ok t)
    (hContent : IsContent t.symbol) :
    Graph.read (fuel + 1) context r = Graph.readContent fuel context {} t.start t r := by
  obtain ⟨symbol, start, stop⟩ := t
  have hProperties : readProperties r = .ok ({}, r) := by
    rw [readProperties, hPeek]
    cases symbol <;> first | rfl | cases hContent
  have hRead : Graph.read (fuel + 1) context r =
      readProperties r >>= fun x => x.2.peek >>= fun t =>
        checkAnchor x.2 x.1 (x.1.start.getD t.start) >>= fun _ =>
          Graph.readContent fuel context x.1 (x.1.start.getD t.start) t x.2 := by
    rw [Graph.read, hPeek]
    cases symbol <;> first | rfl | cases hContent
  rw [hRead, hProperties]
  show (r.peek >>= fun t => checkAnchor r {} t.start >>= fun _ =>
    Graph.readContent fuel context {} t.start t r) = _
  rw [hPeek]
  rfl

theorem content_ends {fuel : Nat} {context : Context} {R : Place × NodeReader → Prop}
    (h : Follows F K (s :: ss) r.tokens) (hs : IsContent s)
    (hNext : ∀ t, t.symbol = s → Follows F K ss r.next.tokens →
      Ends (fun _ => F) R (Graph.readContent fuel context {} t.start t r)) :
    Ends (fun _ => F) R (Graph.read (fuel + 1) context r) := by
  have hSome : s ≠ .streamEnd := by
    rintro rfl
    exact hs
  rcases Follows.peek_cases h hSome with ⟨⟨failure, hFail⟩, hF⟩ | ⟨t, hSymbol, hPeek, hRest⟩
  · rw [Graph.read, hFail]
    exact .error hF
  · rw [read_content hPeek (by rw [hSymbol]; exact hs)]
    exact hNext t hSymbol hRest

/-- A scalar is a node of its own. -/
theorem scalar_ends {fuel : Nat} {context : Context} {points : List Text.Point} {isPlain : Bool}
    {tag : Tag} (h : Follows F K (.scalar points isPlain :: ss) r.tokens) (hFuel : 2 ≤ fuel)
    (hTag : Properties.scalarTag {} points isPlain = tag) :
    Ends (fun _ => F)
      (fun x => x.1 = r.free ∧ HasRead F K ss 1 [(r.free, tag, .scalar points)] r x.2)
      (Graph.read fuel context r) := by
  obtain ⟨fuel, rfl⟩ := Nat.exists_eq_add_of_le' hFuel
  refine content_ends h trivial fun t hSymbol hRest => ?_
  rw [Graph.readContent, hSymbol]
  exact .ok ⟨rfl, hRest, rfl, rfl, by rw [← hTag]; rfl⟩

/-! ## Collections -/

/-- A collection is a node before those of its parts, which are read if there is room for it. -/
theorem collection_ends {β : Type} {size : Nat} {tag : Tag} {content : β → Content}
    {start : Mark} {P : Prop} {ss' : List Symbol} (nodes : Place → List Shape)
    (parts : Place → β) {readParts : NodeReader → Except Failure (β × NodeReader)}
    (hTokens : Follows F K ss' r.next.tokens) (hFull : r.room = 0 → F)
    (hParts : ∀ r', r.room = r'.room + 1 → Follows F K ss' r'.tokens →
      Ends (fun _ => F)
        (fun x => x.1 = parts r'.free ∧ P ∧ HasRead F K ss size (nodes r'.free) r' x.2)
        (readParts r')) :
    Ends (fun _ => F) (fun x => x.1 = r.free ∧ P ∧
        HasRead F K ss (size + 1) ((r.free, tag, content (parts (r.free + 1))) ::
          nodes (r.free + 1)) r x.2)
      (({ r with free := r.free + 1 } : NodeReader).enter >>= fun r' => readParts r'.next >>= fun x =>
        .ok (r.free, x.2.leave.put r.free ⟨tag, content x.1, start⟩)) := by
  cases hRoom : r.room with
  | zero => exact .error (hFull hRoom)
  | succ room =>
    let inside : NodeReader := { r with free := r.free + 1, room }
    show Ends _ _ (readParts inside.next >>= _)
    refine .bind (hParts inside.next hRoom hTokens) fun x ⟨hx, hP, hRead⟩ => ?_
    refine .ok ⟨rfl, hP, hRead.tokens, ?_, ?_, ?_⟩
    · show x.2.room + 1 = _
      rw [hRead.room, hRoom]
      rfl
    · show x.2.free = _
      rw [hRead.free]
      exact Nat.add_right_comm r.free 1 size
    · show (r.free, tag, content x.1) :: x.2.nodes.map shape = _
      rw [hRead.nodes, hx]
      rfl

/-- What comes after a comma is read like the first part. -/
theorem comma_ends {β : Type} {P : Symbol → Prop} {R : β → Prop}
    (readParts : (first : Bool) → NodeReader → Except Failure β)
    (h : Follows F K (.comma :: ss) r.tokens) (hs : StartsWith P ss) (hEnd : ¬ P .streamEnd)
    (hPeek : ∀ {f}, r.peek = .error f → readParts false r = .error f)
    (hComma : ∀ {t f}, r.peek = .ok t → t.symbol = .comma → r.next.peek = .error f →
      readParts false r = .error f)
    (hEq : ∀ {t t'}, r.peek = .ok t → t.symbol = .comma → r.next.peek = .ok t' → P t'.symbol →
      readParts false r = readParts true r.next)
    (hNext : Follows F K ss r.next.tokens → Ends (fun _ => F) R (readParts true r.next)) :
    Ends (fun _ => F) R (readParts false r) := by
  rcases Follows.peek_cases h (by simp) with ⟨⟨failure, hFail⟩, hF⟩ | ⟨t, hSymbol, hToken, hRest⟩
  · rw [hPeek hFail]
    exact .error hF
  rcases hs.peek_cases hEnd hRest with ⟨⟨failure, hFail⟩, hF⟩ | ⟨t', hs', hToken'⟩
  · rw [hComma hToken hSymbol hFail]
    exact .error hF
  · rw [hEq hToken hSymbol hToken' hs']
    exact hNext hRest

/-! ## Arrays -/

theorem sequence_ends {fuel size : Nat} {context : Context} (nodes : Place → List Shape)
    (places : Place → List Place) {ss' : List Symbol} {P : Prop}
    (h : Follows F K (.openSequence :: ss') r.tokens) (hFull : r.room = 0 → F)
    (hItems : ∀ (since : Mark) (r' : NodeReader), r.room = r'.room + 1 → Follows F K ss' r'.tokens →
      Ends (fun _ => F)
        (fun x => x.1 = places r'.free ∧ P ∧ HasRead F K ss size (nodes r'.free) r' x.2)
        (Graph.readFlowItems fuel true since r')) :
    Ends (fun _ => F) (fun x => x.1 = r.free ∧ P ∧
        HasRead F K ss (size + 1) ((r.free, .seq, .sequence (places (r.free + 1))) ::
          nodes (r.free + 1)) r x.2)
      (Graph.read (fuel + 2) context r) := by
  refine content_ends h trivial fun t hSymbol hRest => ?_
  rw [Graph.readContent, hSymbol]
  exact collection_ends nodes places hRest hFull (hItems t.start)

theorem flowItems_close {fuel : Nat} {first : Bool} {since : Mark}
    (h : Follows F K (.closeSequence :: ss) r.tokens) :
    Ends (fun _ => F) (fun x => x.1 = [] ∧ HasRead F K ss 0 [] r x.2)
      (Graph.readFlowItems (fuel + 1) first since r) := by
  rw [Graph.readFlowItems]
  refine Follows.ends h (by simp) fun t hSymbol _ hRest => ?_
  rw [hSymbol]
  exact .ok ⟨rfl, hRest, rfl, rfl, rfl⟩

theorem flowItems_comma {fuel : Nat} {since : Mark} {R : List Place × NodeReader → Prop}
    (h : Follows F K (.comma :: ss) r.tokens) (hs : StartsWith IsContent ss)
    (hNext : Follows F K ss r.next.tokens →
      Ends (fun _ => F) R (Graph.readFlowItems (fuel + 1) true since r.next)) :
    Ends (fun _ => F) R (Graph.readFlowItems (fuel + 1) false since r) := by
  refine comma_ends (Graph.readFlowItems (fuel + 1) · since) h hs id ?_ ?_ ?_ hNext
  · intro f hFail
    rw [Graph.readFlowItems, hFail]
    rfl
  · rintro ⟨symbol, start, stop⟩ f hPeek rfl hFail
    rw [Graph.readFlowItems, hPeek]
    show (r.next.peek >>= _) = _
    rw [hFail]
    rfl
  · rintro ⟨symbol, start, stop⟩ ⟨symbol', start', stop'⟩ hPeek rfl hPeek' hContent
    rw [Graph.readFlowItems, Graph.readFlowItems, hPeek]
    show (r.next.peek >>= _) = _
    rw [hPeek']
    cases symbol' <;> first
      | exact False.elim hContent
      | (show _ = (r.next.peek >>= _); rw [hPeek'])

theorem flowItems_item {fuel : Nat} {since : Mark} {R : List Place × NodeReader → Prop}
    (h : Follows F K ss r.tokens) (hs : StartsWith IsContent ss)
    (hNext : Ends (fun _ => F) R (Graph.read fuel .flow r >>= fun x =>
      Graph.readFlowItems fuel false since x.2 >>= fun y => .ok (x.1 :: y.1, y.2))) :
    Ends (fun _ => F) R (Graph.readFlowItems (fuel + 1) true since r) := by
  rcases hs.peek_cases id h with ⟨⟨failure, hFail⟩, hF⟩ | ⟨⟨symbol, start, stop⟩, hContent, hPeek⟩
  · rw [Graph.readFlowItems, hFail]
    exact .error hF
  · have hEq : Graph.readFlowItems (fuel + 1) true since r = Graph.read fuel .flow r >>= fun x =>
        Graph.readFlowItems fuel false since x.2 >>= fun y => .ok (x.1 :: y.1, y.2) := by
      rw [Graph.readFlowItems, hPeek]
      cases symbol <;> first
        | exact False.elim hContent
        | (show (r.peek >>= _) = _; rw [hPeek]; rfl)
    rw [hEq]
    exact hNext

/-! ## Objects -/

theorem mapping_ends {fuel size : Nat} {context : Context} (nodes : Place → List Shape)
    (places : Place → List (Place × Place)) {ss' : List Symbol} {P : Prop}
    (h : Follows F K (.openMapping :: ss') r.tokens) (hFull : r.room = 0 → F)
    (hEntries : ∀ (since : Mark) (r' : NodeReader), r.room = r'.room + 1 → Follows F K ss' r'.tokens →
      Ends (fun _ => F)
        (fun x => x.1 = places r'.free ∧ P ∧ HasRead F K ss size (nodes r'.free) r' x.2)
        (Graph.readFlowEntries fuel true since r')) :
    Ends (fun _ => F) (fun x => x.1 = r.free ∧ P ∧
        HasRead F K ss (size + 1) ((r.free, .map, .mapping (places (r.free + 1))) ::
          nodes (r.free + 1)) r x.2)
      (Graph.read (fuel + 2) context r) := by
  refine content_ends h trivial fun t hSymbol hRest => ?_
  rw [Graph.readContent, hSymbol]
  exact collection_ends nodes places hRest hFull (hEntries t.start)

theorem flowEntries_close {fuel : Nat} {first : Bool} {since : Mark}
    (h : Follows F K (.closeMapping :: ss) r.tokens) :
    Ends (fun _ => F) (fun x => x.1 = [] ∧ HasRead F K ss 0 [] r x.2)
      (Graph.readFlowEntries (fuel + 1) first since r) := by
  rw [Graph.readFlowEntries]
  refine Follows.ends h (by simp) fun t hSymbol _ hRest => ?_
  rw [hSymbol]
  exact .ok ⟨rfl, hRest, rfl, rfl, rfl⟩

/-- A token that starts an entry. -/
def StartsEntry : Symbol → Prop
  | .scalar .. | .key => True
  | _ => False

theorem flowEntries_comma {fuel : Nat} {since : Mark}
    {R : List (Place × Place) × NodeReader → Prop}
    (h : Follows F K (.comma :: ss) r.tokens) (hs : StartsWith StartsEntry ss)
    (hNext : Follows F K ss r.next.tokens →
      Ends (fun _ => F) R (Graph.readFlowEntries (fuel + 1) true since r.next)) :
    Ends (fun _ => F) R (Graph.readFlowEntries (fuel + 1) false since r) := by
  refine comma_ends (Graph.readFlowEntries (fuel + 1) · since) h hs id ?_ ?_ ?_ hNext
  · intro f hFail
    rw [Graph.readFlowEntries, hFail]
    rfl
  · rintro ⟨symbol, start, stop⟩ f hPeek rfl hFail
    rw [Graph.readFlowEntries, hPeek]
    show (r.next.peek >>= _) = _
    rw [hFail]
    rfl
  · rintro ⟨symbol, start, stop⟩ ⟨symbol', start', stop'⟩ hPeek rfl hPeek' hEntry
    rw [Graph.readFlowEntries, Graph.readFlowEntries, hPeek]
    show (r.next.peek >>= _) = _
    rw [hPeek']
    cases symbol' <;> first
      | exact False.elim hEntry
      | (show _ = (r.next.peek >>= _); rw [hPeek'])

/-- A part of an entry that is not left out. -/
theorem part_ends {fuel : Nat} {context : Context} {ends : Symbol → Bool} {mark : Mark}
    {R : Place × NodeReader → Prop} (h : Follows F K ss r.tokens) (hs : StartsWith IsContent ss)
    (hEnds : ∀ s, IsContent s → ends s = false)
    (hRead : Ends (fun _ => F) R (Graph.read fuel context r)) :
    Ends (fun _ => F) R (Graph.readPart (fuel + 1) context ends mark r) := by
  rw [Graph.readPart]
  rcases hs.peek_cases id h with ⟨⟨failure, hFail⟩, hF⟩ | ⟨t, hContent, hPeek⟩
  · rw [hFail]
    exact .error hF
  · rw [hPeek]
    show Ends _ _ (if ends t.symbol then _ else _)
    rw [hEnds t.symbol hContent]
    exact hRead

theorem endsMappingKey_content : ∀ s, IsContent s → s.endsMappingKey = false
  | .scalar .., _ | .openSequence, _ | .openMapping, _ => rfl

theorem endsMappingValue_content : ∀ s, IsContent s → s.endsMappingValue = false
  | .scalar .., _ | .openSequence, _ | .openMapping, _ => rfl

/-- A key with its value. -/
theorem flowEntries_key {fuel size : Nat} {since : Mark} {points : List Text.Point}
    (nodes : Place → List Shape) {isPlain : Bool} {P : Prop} {ss' : List Symbol}
    {R : List (Place × Place) × NodeReader → Prop}
    (h : Follows F K (.key :: .scalar points isPlain :: .value :: ss) r.tokens)
    (hs : StartsWith IsContent ss) (hFuel : 1 ≤ fuel)
    (hItem : ∀ r', r'.room = r.room → Follows F K ss r'.tokens →
      Ends (fun _ => F) (fun x => x.1 = r'.free ∧ P ∧ HasRead F K ss' size (nodes r'.free) r' x.2)
        (Graph.read fuel .flow r'))
    (hNext : ∀ r', P → HasRead F K ss' (1 + size)
        (nodes (r.free + 1) ++
          [(r.free, Properties.scalarTag {} points isPlain, .scalar points)]) r r' →
      Ends (fun _ => F) (fun x => R ((r.free, r.free + 1) :: x.1, x.2))
        (Graph.readFlowEntries (fuel + 2) false since r')) :
    Ends (fun _ => F) R (Graph.readFlowEntries (fuel + 3) true since r) := by
  rcases Follows.peek_cases h (by simp) with ⟨⟨failure, hFail⟩, hF⟩ | ⟨t, hSymbol, hPeek, hRest⟩
  · rw [Graph.readFlowEntries, hFail]
    exact .error hF
  obtain ⟨symbol, start, stop⟩ := t
  obtain rfl : symbol = .key := hSymbol
  have hEq : Graph.readFlowEntries (fuel + 3) true since r =
      Graph.readPart (fuel + 2) .flow Symbol.endsMappingKey stop r.next >>= fun k =>
        Graph.readValue (fuel + 2) .flow Symbol.endsMappingValue k.2 >>= fun v =>
          Graph.readFlowEntries (fuel + 2) false since v.2 >>= fun es =>
            .ok ((k.1, v.1) :: es.1, es.2) := by
    rw [Graph.readFlowEntries, hPeek]
    show (r.peek >>= _) = _
    rw [hPeek]
    rfl
  rw [hEq]
  refine .bind (part_ends hRest ⟨_, _, rfl, trivial⟩ endsMappingKey_content
    (scalar_ends hRest (by omega) rfl)) ?_
  rintro ⟨place, rKey⟩ ⟨rfl, hKey⟩
  refine .bind (Q := fun x => x.1 = r.free + 1 ∧ P ∧
    HasRead F K ss' size (nodes (r.free + 1)) rKey x.2) ?_ ?_
  · rw [Graph.readValue]
    refine Follows.ends hKey.tokens (by simp) fun t hColon _ hRest => ?_
    rw [hColon]
    have hFree : rKey.next.free = r.free + 1 := hKey.free
    refine part_ends hRest hs endsMappingValue_content ?_
    have h := hItem rKey.next hKey.room hRest
    rw [hFree] at h
    exact h.imp fun x hx => ⟨hx.1, hx.2.1, hx.2.2.of_next⟩
  · rintro ⟨place, rItem⟩ ⟨rfl, hP, hItem⟩
    refine .bind (hNext rItem hP (hKey.trans hItem).of_next) ?_
    exact fun es hR => .ok hR

/-- A name that its colon does not make a key has no value; its colon is refused. -/
theorem flowEntries_stale {fuel : Nat} {since : Mark} {points : List Text.Point} {isPlain : Bool}
    {R : List (Place × Place) × NodeReader → Prop} (hF : F)
    (h : Follows F K (.scalar points isPlain :: .value :: ss) r.tokens) (hFuel : 3 ≤ fuel) :
    Ends (fun _ => F) R (Graph.readFlowEntries fuel true since r) := by
  obtain ⟨fuel, rfl⟩ := Nat.exists_eq_add_of_le' hFuel
  rcases Follows.peek_cases h (by simp) with ⟨⟨failure, hFail⟩, -⟩ | ⟨t, hSymbol, hPeek, -⟩
  · rw [Graph.readFlowEntries, hFail]
    exact .error hF
  · have hEntry : Graph.readFlowEntries (fuel + 3) true since r =
        Graph.read (fuel + 2) .flow r >>= fun x => x.2.peek >>= fun t =>
          Graph.readFlowEntries (fuel + 2) false since (x.2.absent t.start).2 >>= fun y =>
            .ok ((x.1, (x.2.absent t.start).1) :: y.1, y.2) := by
      obtain ⟨symbol, start, stop⟩ := t
      obtain rfl : symbol = .scalar points isPlain := hSymbol
      rw [Graph.readFlowEntries, hPeek]
      show (r.peek >>= _) = _
      rw [hPeek]
      rfl
    rw [hEntry]
    refine .bind (scalar_ends h (by omega) rfl) ?_
    rintro ⟨place, r'⟩ ⟨-, hRead⟩
    refine Follows.ends hRead.tokens (by simp) fun t hColon hPeek _ => ?_
    refine .bind (Q := fun _ => False) ?_ ?_
    · obtain ⟨symbol, start, stop⟩ := t
      obtain rfl : symbol = .value := hColon
      have hPeek : (r'.absent start).2.peek = .ok ⟨.value, start, stop⟩ := hPeek
      rw [Graph.readFlowEntries, hPeek]
      exact .error hF
    · exact fun _ => False.elim

theorem Key.symbols_fresh {k : Key} (h : k.isFresh = true) :
    k.symbols = [.key, stringSymbol k.pieces, .value] := by simp [Key.symbols, h]

theorem Key.symbols_stale {k : Key} (h : k.isFresh = false) :
    k.symbols = [stringSymbol k.pieces, .value] := by simp [Key.symbols, h]

theorem Key.symbols_some (k : Key) : 2 ≤ k.symbols.length := by
  unfold Key.symbols
  split <;> simp

/-- A name with its value, unless the name is no key. -/
theorem member_ends {fuel size : Nat} {since : Mark} {key : Key} (nodes : Place → List Shape)
    {P : Prop} {ss' : List Symbol} {R : List (Place × Place) × NodeReader → Prop}
    (h : Follows F K (key.symbols ++ ss) r.tokens) (hs : StartsWith IsContent ss)
    (hFuel : 1 ≤ fuel) (hFails : key.isFresh = false → F)
    (hItem : ∀ r', r'.room = r.room → Follows F K ss r'.tokens →
      Ends (fun _ => F) (fun x => x.1 = r'.free ∧ P ∧ HasRead F K ss' size (nodes r'.free) r' x.2)
        (Graph.read fuel .flow r'))
    (hNext : ∀ r', key.isFresh = true → P → HasRead F K ss' (1 + size)
        (nodes (r.free + 1) ++ [(r.free, .str, .scalar (Pieces.points key.pieces))]) r r' →
      Ends (fun _ => F) (fun x => R ((r.free, r.free + 1) :: x.1, x.2))
        (Graph.readFlowEntries (fuel + 2) false since r')) :
    Ends (fun _ => F) R (Graph.readFlowEntries (fuel + 3) true since r) := by
  cases hFresh : key.isFresh with
  | true =>
    rw [Key.symbols_fresh hFresh] at h
    exact flowEntries_key nodes h hs hFuel hItem fun r' => hNext r' hFresh
  | false =>
    rw [Key.symbols_stale hFresh] at h
    exact flowEntries_stale (hFails hFresh) h (Nat.le_add_left 3 fuel)

/-! ## Trees -/

theorem Tree.symbols_startsWith (t : Tree) : StartsWith IsContent t.symbols := by
  cases t <;> exact ⟨_, _, rfl, trivial⟩

theorem Items.symbols_startsWith (items : Items) : StartsWith IsContent items.symbols := by
  cases items with
  | last before item after => exact item.symbols_startsWith
  | cons before item after rest => exact item.symbols_startsWith.append _

theorem Key.symbols_startsWith (k : Key) : StartsWith StartsEntry k.symbols := by
  unfold Key.symbols
  split <;> exact ⟨_, _, rfl, trivial⟩

theorem Members.symbols_startsWith (members : Members) :
    StartsWith StartsEntry members.symbols := by
  cases members with
  | last key before item after => exact key.symbols_startsWith.append _
  | cons key before item after rest => exact key.symbols_startsWith.append _

theorem word_tag {w : List Char} {tag : Tag} (hTag : Tag.ofPlain w = tag) :
    Properties.scalarTag {} (pointsOf w) true = tag := by
  rw [← hTag]
  show Tag.ofPlain ((pointsOf w).map Text.Point.shown) = _
  rw [pointsOf, List.map_map]
  exact congrArg Tag.ofPlain (List.map_id w)

mutual

/-- The nodes of a tree are read from its tokens, unless a name is no key or there is no room. -/
theorem Tree.read_ends {fuel : Nat} {context : Context} {ss : List Symbol} {r : NodeReader}
    (t : Tree) (h : Follows F K (t.symbols ++ ss) r.tokens) (hFuel : 5 * t.symbols.length ≤ fuel)
    (hFails : t.fits r.room = false → F) :
    Ends (fun _ => F) (fun x => x.1 = r.free ∧ t.fits r.room = true ∧
        HasRead F K ss t.size (t.nodes r.free) r x.2) (Graph.read fuel context r) := by
  cases t with
  | null =>
    exact (scalar_ends h (Nat.le_trans (by decide : 2 ≤ 5) hFuel) (word_tag (by rfl))).imp
      fun x hx => ⟨hx.1, rfl, hx.2⟩
  | bool b =>
    have hTag : Tag.ofPlain (Tree.bool b).chars = .bool := by cases b <;> rfl
    exact (scalar_ends h (Nat.le_trans (by decide : 2 ≤ 5) hFuel) (word_tag hTag)).imp
      fun x hx => ⟨hx.1, rfl, hx.2⟩
  | number number =>
    exact (scalar_ends h (Nat.le_trans (by decide : 2 ≤ 5) hFuel) (word_tag number.ofPlain_eq)).imp
      fun x hx => ⟨hx.1, rfl, hx.2⟩
  | string ps =>
    exact (scalar_ends h (Nat.le_trans (by decide : 2 ≤ 5) hFuel) rfl).imp
      fun x hx => ⟨hx.1, rfl, hx.2⟩
  | emptyArray gap =>
    obtain ⟨fuel, rfl⟩ := Nat.exists_eq_add_of_le' (Nat.le_trans (by decide : 3 ≤ 10) hFuel)
    have hFull : r.room = 0 → F := fun hNone => hFails (by simp [Tree.fits, Tree.depth, hNone])
    refine sequence_ends (fun _ => []) (fun _ => []) h hFull fun _ r' hRoom hTokens => ?_
    have hFits : (Tree.emptyArray gap).fits r.room = true := by
      simp [Tree.fits, Tree.depth, Tree.obeys, nearness, hRoom]
    exact (flowItems_close hTokens).imp fun x hx => ⟨hx.1, hFits, hx.2⟩
  | array items =>
    simp only [Tree.symbols, List.cons_append, List.append_assoc] at h
    simp only [Tree.symbols, List.length_cons, List.length_append, List.length_nil] at hFuel
    obtain ⟨fuel, rfl⟩ := Nat.exists_eq_add_of_le' (by omega : 2 ≤ fuel)
    have hItems : 5 * items.symbols.length + 2 ≤ fuel := by omega
    have hFull : r.room = 0 → F := fun hNone => hFails (by simp [Tree.fits, Tree.depth, hNone])
    refine sequence_ends (fun p => items.nodes p) (fun p => items.places p) h hFull
      fun _ r' hRoom hTokens => ?_
    rw [hRoom, Tree.fits_array] at hFails ⊢
    exact items.read_ends hTokens hItems hFails
  | emptyObject gap =>
    obtain ⟨fuel, rfl⟩ := Nat.exists_eq_add_of_le' (Nat.le_trans (by decide : 3 ≤ 10) hFuel)
    have hFull : r.room = 0 → F := fun hNone => hFails (by simp [Tree.fits, Tree.depth, hNone])
    refine mapping_ends (fun _ => []) (fun _ => []) h hFull fun _ r' hRoom hTokens => ?_
    have hFits : (Tree.emptyObject gap).fits r.room = true := by
      simp [Tree.fits, Tree.depth, Tree.obeys, nearness, hRoom]
    exact (flowEntries_close hTokens).imp fun x hx => ⟨hx.1, hFits, hx.2⟩
  | object members =>
    simp only [Tree.symbols, List.cons_append, List.append_assoc] at h
    simp only [Tree.symbols, List.length_cons, List.length_append, List.length_nil] at hFuel
    obtain ⟨fuel, rfl⟩ := Nat.exists_eq_add_of_le' (by omega : 2 ≤ fuel)
    have hMembers : 5 * members.symbols.length + 2 ≤ fuel := by omega
    have hFull : r.room = 0 → F := fun hNone => hFails (by simp [Tree.fits, Tree.depth, hNone])
    refine mapping_ends (fun p => members.nodes p) (fun p => members.places p) h hFull
      fun _ r' hRoom hTokens => ?_
    rw [hRoom, Tree.fits_object] at hFails ⊢
    exact members.read_ends hTokens hMembers hFails

theorem Items.read_ends {fuel : Nat} {since : Mark} {ss : List Symbol} {r : NodeReader}
    (items : Items) (h : Follows F K (items.symbols ++ .closeSequence :: ss) r.tokens)
    (hFuel : 5 * items.symbols.length + 2 ≤ fuel) (hFails : items.fit r.room = false → F) :
    Ends (fun _ => F) (fun x => x.1 = items.places r.free ∧ items.fit r.room = true ∧
        HasRead F K ss items.size (items.nodes r.free) r x.2)
      (Graph.readFlowItems fuel true since r) := by
  obtain ⟨fuel, rfl⟩ := Nat.exists_eq_add_of_le' (by omega : 2 ≤ fuel)
  refine flowItems_item h (items.symbols_startsWith.append _) ?_
  cases items with
  | last before item after =>
    rw [Items.fit_last] at hFails ⊢
    simp only [Items.symbols] at hFuel
    refine .bind (item.read_ends h (by omega) hFails) ?_
    rintro ⟨place, rItem⟩ ⟨rfl, hNear, hItem⟩
    refine .bind (flowItems_close hItem.tokens) ?_
    rintro ⟨places, rEnd⟩ ⟨rfl, hEnd⟩
    exact .ok ⟨rfl, hNear, hItem.trans hEnd⟩
  | cons before item after rest =>
    rw [Items.fit_cons] at hFails ⊢
    simp only [Items.symbols, List.append_assoc, List.cons_append] at h
    simp only [Items.symbols, List.length_append, List.length_cons] at hFuel
    refine .bind (item.read_ends h (by omega) fun hNear => hFails (by simp [hNear])) ?_
    rintro ⟨place, rItem⟩ ⟨rfl, hNear, hItem⟩
    have hRoom : rItem.next.room = r.room := hItem.room
    refine .bind (flowItems_comma hItem.tokens (rest.symbols_startsWith.append _) fun hTokens =>
      rest.read_ends hTokens (by omega) fun hRest => hFails (by simp [← hRoom, hRest])) ?_
    rintro ⟨places, rEnd⟩ ⟨rfl, hRest, hEnd⟩
    rw [hRoom] at hRest
    have hFree : rItem.next.free = r.free + item.size := hItem.free
    rw [hFree] at hEnd ⊢
    exact .ok ⟨rfl, by simp [hNear, hRest], hItem.trans hEnd.of_next⟩

theorem Members.read_ends {fuel : Nat} {since : Mark} {ss : List Symbol} {r : NodeReader}
    (members : Members) (h : Follows F K (members.symbols ++ .closeMapping :: ss) r.tokens)
    (hFuel : 5 * members.symbols.length + 2 ≤ fuel) (hFails : members.fit r.room = false → F) :
    Ends (fun _ => F) (fun x => x.1 = members.places r.free ∧ members.fit r.room = true ∧
        HasRead F K ss members.size (members.nodes r.free) r x.2)
      (Graph.readFlowEntries fuel true since r) := by
  cases members with
  | last key before item after =>
    rw [Members.fit_last] at hFails ⊢
    simp only [Members.symbols, List.append_assoc, List.length_append] at h hFuel
    have hKey := key.symbols_some
    obtain ⟨fuel, rfl⟩ := Nat.exists_eq_add_of_le' (by omega : 3 ≤ fuel)
    have hItem : 5 * item.symbols.length ≤ fuel := by omega
    refine member_ends (fun p => item.nodes p) h (item.symbols_startsWith.append _) (by omega)
      (fun hStale => hFails (by rw [show key.obeys nearness = false from hStale]; rfl))
      (fun _ hRoom hTokens => hRoom ▸ item.read_ends hTokens hItem fun hNear =>
        hFails (by simp [← hRoom, hNear]))
      fun r' hFresh hNear hRead => ?_
    refine (flowEntries_close hRead.tokens).imp fun x hx => ?_
    have hKey : key.obeys nearness = true := hFresh
    exact ⟨by rw [hx.1]; rfl, by rw [hKey, hNear]; rfl, hRead.trans hx.2⟩
  | cons key before item after rest =>
    rw [Members.fit_cons] at hFails ⊢
    simp only [Members.symbols, List.append_assoc, List.cons_append, List.length_append,
      List.length_cons] at h hFuel
    have hKey := key.symbols_some
    obtain ⟨fuel, rfl⟩ := Nat.exists_eq_add_of_le' (by omega : 3 ≤ fuel)
    have hItem : 5 * item.symbols.length ≤ fuel := by omega
    refine member_ends (fun p => item.nodes p) h (item.symbols_startsWith.append _) (by omega)
      (fun hStale => hFails (by rw [show key.obeys nearness = false from hStale]; rfl))
      (fun _ hRoom hTokens => hRoom ▸ item.read_ends hTokens hItem fun hNear =>
        hFails (by simp [← hRoom, hNear]))
      fun r' hFresh hNear hRead => ?_
    have hRoom : r'.next.room = r.room := hRead.room
    refine (flowEntries_comma hRead.tokens (rest.symbols_startsWith.append _) fun hTokens =>
      rest.read_ends hTokens (by omega) fun hRest => hFails (by simp [← hRoom, hRest])).imp
        fun x hx => ?_
    obtain ⟨hPlaces, hRest, hEnd⟩ := hx
    rw [hRoom] at hRest
    have hKey : key.obeys nearness = true := hFresh
    have hFree : r'.next.free = r.free + (1 + item.size) := hRead.free
    rw [hFree] at hPlaces hEnd
    exact ⟨by rw [hPlaces]; rfl, by rw [hKey, hNear, hRest]; rfl, hRead.trans hEnd.of_next⟩

end

end EntityGraph.Json
