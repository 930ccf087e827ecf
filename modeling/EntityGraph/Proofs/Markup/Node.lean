import EntityGraph.Proofs.Markup.Token

/-!
# Failures of nodes

Reading the nodes of a document adds refusals only to the failures of its tokens.  Every reading
leaves a reader whose tokens are what remains of those it was given, so whatever the tokens end with
stays expected throughout.

* `NodeReader.Sound`: a reader of which the tokens end with no other than an expected failure;
* `ReadsSound`: what all the readings of nodes keep, by induction on their steps;
* `Graph.document_expected`: the failures of reading a document are expected.
-/

namespace EntityGraph.Markup

def NodeReader.Sound (r : NodeReader) : Prop := r.tokens.Sound

/-- A reading that fails as expected and leaves a sound reader with what it has read. -/
abbrev Keeps {α : Type} (x : Except Failure (α × NodeReader)) : Prop :=
  Ends Expected (fun y => y.2.Sound) x

/-- The same of a reading that gives a reader only. -/
abbrev Leaves (x : Except Failure NodeReader) : Prop := Ends Expected NodeReader.Sound x

namespace NodeReader.Sound

variable {r : NodeReader}

theorem next (h : r.Sound) : r.next.Sound := TokenStream.Sound.tail h

theorem enter (h : r.Sound) : Ends Expected NodeReader.Sound r.enter := by
  unfold NodeReader.enter
  split
  · exact .error (.inr .nested)
  · exact .ok h

theorem leave (h : r.Sound) : r.leave.Sound := h

theorem absent (h : r.Sound) (mark : Mark) : (r.absent mark).2.Sound := h

theorem name (h : r.Sound) (anchor : Option String) (p : Place) (mark : Mark) :
    (r.name anchor p mark).Sound := by
  cases anchor with
  | none => exact h
  | some a => exact h

theorem peek (h : r.Sound) : Ends Expected (fun _ => True) r.peek :=
  .of_failsBy (TokenStream.Sound.head h)

end NodeReader.Sound

section Refusals

variable {α : Type} {Q : α → Prop}

theorem refuse_ends {activity : String} {since : Mark} {message : String} {mark : Mark} :
    Ends Expected Q (refuse activity since message mark : Except Failure α) :=
  .error (.inl ⟨_, rfl⟩)

theorem refuseAt_ends {mark : Mark} {message : String} :
    Ends Expected Q (refuseAt mark message : Except Failure α) :=
  .error (.inl ⟨_, rfl⟩)

end Refusals

/-! ## Properties -/

theorem resolveTag_expected (r : NodeReader) (start mark : Mark) (handle : Option String)
    (suffix : String) : FailsBy Expected (resolveTag r start mark handle suffix) := by
  cases handle with
  | none => exact FailsBy.ok suffix
  | some handle => grind [resolveTag]

theorem checkAnchor_expected (r : NodeReader) (p : Properties) (start : Mark) :
    FailsBy Expected (checkAnchor r p start) := by
  grind [checkAnchor]

theorem readProperties_keeps {r : NodeReader} (h : r.Sound) : Keeps (readProperties r) := by
  rw [readProperties]
  refine .bind h.peek fun first _ => ?_
  split
  · refine .bind h.next.peek fun second _ => ?_
    split
    · exact .bind (.of_failsBy (resolveTag_expected _ _ _ _ _)) fun uri _ => .ok h.next.next
    · exact .ok h.next
  · refine .bind h.next.peek fun second _ => ?_
    refine .bind (.of_failsBy (resolveTag_expected _ _ _ _ _)) fun uri _ => ?_
    split
    · exact .ok h.next.next
    · exact .ok h.next
  · exact .ok h

/-! ## Nodes -/

namespace Graph

/-- What the readings of nodes keep within a number of steps. -/
structure ReadsSound (fuel : Nat) : Prop where
  node {r : NodeReader} (context : Context) (h : r.Sound) : Keeps (read fuel context r)
  content {r : NodeReader} (context : Context) (p : Properties) (start : Mark) (t : Token)
    (h : r.Sound) : Keeps (readContent fuel context p start t r)
  part {r : NodeReader} (context : Context) (ends : Symbol → Bool) (mark : Mark) (h : r.Sound) :
    Keeps (readPart fuel context ends mark r)
  blockItems {r : NodeReader} (since : Mark) (h : r.Sound) : Keeps (readBlockItems fuel since r)
  bareItems {r : NodeReader} (h : r.Sound) : Keeps (readBareItems fuel r)
  value {r : NodeReader} (context : Context) (ends : Symbol → Bool) (h : r.Sound) :
    Keeps (readValue fuel context ends r)
  blockEntries {r : NodeReader} (since : Mark) (h : r.Sound) :
    Keeps (readBlockEntries fuel since r)
  flowItems {r : NodeReader} (first : Bool) (since : Mark) (h : r.Sound) :
    Keeps (readFlowItems fuel first since r)
  flowEntries {r : NodeReader} (first : Bool) (since : Mark) (h : r.Sound) :
    Keeps (readFlowEntries fuel first since r)

theorem readsSound_zero : ReadsSound 0 where
  node context h := by
    rw [read]
    exact .bind h.peek fun t _ => .ok (h.absent t.start)
  content context p start t h := by
    rw [readContent]
    exact .ok (h.absent start)
  part context ends mark h := by
    rw [readPart]
    exact .ok (h.absent mark)
  blockItems since h := by
    rw [readBlockItems]
    exact .ok h
  bareItems h := by
    rw [readBareItems]
    exact .ok h
  value context ends h := by
    rw [readValue]
    exact .bind h.peek fun t _ => .ok (h.absent t.start)
  blockEntries since h := by
    rw [readBlockEntries]
    exact .ok h
  flowItems first since h := by
    rw [readFlowItems]
    exact .ok h
  flowEntries first since h := by
    rw [readFlowEntries]
    exact .ok h

section Steps

variable {r : NodeReader}

/-- A collection is read from a reader in which its place has its name. -/
theorem collection {α : Type} (p : Properties) (start : Mark) (h : r.Sound)
    {readParts : NodeReader → Except Failure (α × NodeReader)}
    (hParts : ∀ r : NodeReader, r.Sound → Keeps (readParts r)) (node : α → Node) :
    Keeps (do
      let (place, r) := r.reserve
      let (parts, r) ← readParts (← (r.name p.anchor place start).enter)
      return (place, r.leave.put place (node parts))) := by
  have hNamed : (r.reserve.2.name p.anchor r.reserve.1 start).Sound :=
    NodeReader.Sound.name (r := r.reserve.2) h p.anchor r.reserve.1 start
  refine .bind hNamed.enter fun r h => ?_
  exact .bind (hParts r h) fun (parts, r) h => .ok h.leave

end Steps

namespace ReadsSound

variable {fuel : Nat} (ih : ReadsSound fuel) {r : NodeReader}
include ih

theorem read_succ (context : Context) (h : r.Sound) : Keeps (read (fuel + 1) context r) := by
  rw [read]
  refine .bind h.peek fun first _ => ?_
  split
  · split
    · exact .ok h.next
    · exact refuseAt_ends
  · refine .bind (readProperties_keeps h) fun (p, r) h => ?_
    refine .bind h.peek fun t _ => ?_
    refine .bind (.of_failsBy (checkAnchor_expected _ _ _)) fun _ _ => ?_
    exact ih.content context p _ t h

theorem part_succ (context : Context) (ends : Symbol → Bool) (mark : Mark) (h : r.Sound) :
    Keeps (readPart (fuel + 1) context ends mark r) := by
  rw [readPart]
  refine .bind h.peek fun t _ => ?_
  split
  · exact .ok (h.absent mark)
  · exact ih.node context h

theorem blockItems_succ (since : Mark) (h : r.Sound) :
    Keeps (readBlockItems (fuel + 1) since r) := by
  rw [readBlockItems]
  refine .bind h.peek fun t _ => ?_
  split
  · refine .bind (ih.part _ _ _ h.next) fun (item, r) h => ?_
    exact .bind (ih.blockItems since h) fun (items, r) h => .ok h
  · exact .ok h.next
  · exact refuse_ends

theorem bareItems_succ (h : r.Sound) : Keeps (readBareItems (fuel + 1) r) := by
  rw [readBareItems]
  refine .bind h.peek fun t _ => ?_
  split
  · refine .bind (ih.part _ _ _ h.next) fun (item, r) h => ?_
    exact .bind (ih.bareItems h) fun (items, r) h => .ok h
  · exact .ok h

theorem value_succ (context : Context) (ends : Symbol → Bool) (h : r.Sound) :
    Keeps (readValue (fuel + 1) context ends r) := by
  rw [readValue]
  refine .bind h.peek fun t _ => ?_
  split
  · exact ih.part context ends t.stop h.next
  · exact .ok (h.absent t.start)

theorem blockEntries_succ (since : Mark) (h : r.Sound) :
    Keeps (readBlockEntries (fuel + 1) since r) := by
  rw [readBlockEntries]
  refine .bind h.peek fun t _ => ?_
  split
  · refine .bind (ih.part _ _ _ h.next) fun (key, r) h => ?_
    refine .bind (ih.value _ _ h) fun (value, r) h => ?_
    exact .bind (ih.blockEntries since h) fun (entries, r) h => .ok h
  · exact .ok h.next
  · exact refuse_ends

theorem flowItems_succ (first : Bool) (since : Mark) (h : r.Sound) :
    Keeps (readFlowItems (fuel + 1) first since r) := by
  rw [readFlowItems]
  refine .bind h.peek fun t _ => .ite (.ok h.next) ?_
  extract_lets item
  -- what follows the comma before an item, or the start of the row
  have hItem {r : NodeReader} (h : r.Sound) : Keeps (item r) := by
    refine .bind h.peek fun t _ => ?_
    split
    · exact .ok h.next
    · refine .bind h.next.enter fun r h => ?_
      refine .bind (ih.part _ _ _ h) fun (key, r) h => ?_
      refine .bind (ih.value _ _ h) fun (value, r) h => ?_
      exact .bind (ih.flowItems false since h.leave) fun (items, r) h => .ok h
    · refine .bind (ih.node _ h) fun (item, r) h => ?_
      exact .bind (ih.flowItems false since h) fun (items, r) h => .ok h
  exact .ite (hItem h) (.ite (hItem h.next) refuse_ends)

theorem flowEntries_succ (first : Bool) (since : Mark) (h : r.Sound) :
    Keeps (readFlowEntries (fuel + 1) first since r) := by
  rw [readFlowEntries]
  refine .bind h.peek fun t _ => .ite (.ok h.next) ?_
  extract_lets item
  -- what follows the comma before an item, or the start of the row
  have hItem {r : NodeReader} (h : r.Sound) : Keeps (item r) := by
    refine .bind h.peek fun t _ => ?_
    split
    · exact .ok h.next
    · refine .bind (ih.part _ _ _ h.next) fun (key, r) h => ?_
      refine .bind (ih.value _ _ h) fun (value, r) h => ?_
      exact .bind (ih.flowEntries false since h) fun (entries, r) h => .ok h
    · refine .bind (ih.node _ h) fun (key, r) h => ?_
      refine .bind h.peek fun t _ => ?_
      exact .bind (ih.flowEntries false since (h.absent _)) fun (entries, r) h => .ok h
  exact .ite (hItem h) (.ite (hItem h.next) refuse_ends)

theorem content_succ (context : Context) (p : Properties) (start : Mark) (t : Token)
    (h : r.Sound) : Keeps (readContent (fuel + 1) context p start t r) := by
  let sequence (items : List Place) : Node := ⟨p.collectionTag .seq, .sequence items, start⟩
  let mapping (entries : List (Place × Place)) : Node :=
    ⟨p.collectionTag .map, .mapping entries, start⟩
  have hScalar (n : Node) {r : NodeReader} (h : r.Sound) :
      ((r.add n).2.name p.anchor (r.add n).1 start).Sound :=
    NodeReader.Sound.name (r := (r.add n).2) h p.anchor (r.add n).1 start
  rw [readContent]
  split
  · exact .ok (hScalar _ h.next)
  · exact collection p start h (fun r h => ih.flowItems true t.start h.next) sequence
  · exact collection p start h (fun r h => ih.flowEntries true t.start h.next) mapping
  · exact
      .ite (collection p start h (fun r h => ih.bareItems h) sequence) <|
      .ite (collection p start h (fun r h => ih.blockItems t.start h.next) sequence) <|
      .ite (collection p start h (fun r h => ih.blockEntries t.start h.next) mapping) <|
      .ite (.ok (hScalar _ h)) refuse_ends

end ReadsSound

theorem readsSound (fuel : Nat) : ReadsSound fuel := by
  induction fuel with
  | zero => exact readsSound_zero
  | succ fuel ih =>
    exact {
      node := ih.read_succ
      content := ih.content_succ
      part := ih.part_succ
      blockItems := ih.blockItems_succ
      bareItems := ih.bareItems_succ
      value := ih.value_succ
      blockEntries := ih.blockEntries_succ
      flowItems := ih.flowItems_succ
      flowEntries := ih.flowEntries_succ }

/-! ## Documents -/

theorem add_expected (ds : Directives) (d : Directive) (mark : Mark) :
    FailsBy Expected (ds.add d mark) := by
  cases d with
  | version major minor => grind [Directives.add]
  | tag handle uri => grind [Directives.add]
  | unknown name => exact FailsBy.ok ds

theorem readDirectives_keeps (fuel : Nat) (ds : Directives) {r : NodeReader} (h : r.Sound) :
    Keeps (readDirectives fuel ds r) := by
  induction fuel generalizing ds r with
  | zero => exact .ok h
  | succ fuel ih =>
    rw [readDirectives]
    refine .bind h.peek fun t _ => ?_
    split
    · exact .bind (.of_failsBy (add_expected _ _ _)) fun ds _ => ih ds h.next
    · exact .ok h

theorem readStart_leaves (fuel : Nat) {r : NodeReader} (h : r.Sound) :
    Leaves (readStart fuel r) := by
  rw [readStart]
  refine .bind (readDirectives_keeps fuel {} h) fun (ds, r) h => ?_
  refine .bind h.peek fun t _ => ?_
  split
  · exact .ok h.next
  · exact refuseAt_ends

theorem skipEnds_leaves (fuel : Nat) {r : NodeReader} (h : r.Sound) :
    Leaves (skipEnds fuel r) := by
  induction fuel generalizing r with
  | zero => exact .ok h
  | succ fuel ih =>
    rw [skipEnds]
    refine .bind h.peek fun t _ => ?_
    split
    · exact ih h.next
    · exact .ok h

theorem checkEnd_expected (fuel : Nat) (start : Mark) {r : NodeReader} (h : r.Sound) :
    Ends Expected (fun _ => True) (checkEnd fuel start r) := by
  rw [checkEnd]
  refine .bind (skipEnds_leaves fuel h) fun r h => ?_
  refine .bind h.peek fun t _ => ?_
  split
  · exact .ok trivial
  · exact .bind (readStart_leaves fuel h) fun _ _ => refuse_ends

theorem readDocument_expected (fuel : Nat) {r : NodeReader} (h : r.Sound) :
    Ends Expected (fun _ => True) (readDocument fuel r) := by
  have hReads := readsSound fuel
  rw [readDocument]
  refine .bind h.peek fun t _ => ?_
  split
  · exact .ok trivial
  · extract_lets finish
    have hFinish {y : Place × NodeReader} (h : y.2.Sound) :
        Ends Expected (fun _ => True) (finish y) :=
      .bind (checkEnd_expected fuel _ h) fun _ _ => .ok trivial
    have hStarted : Ends Expected (fun _ => True) (do
        let r ← readStart fuel r
        let y ← readPart fuel .block endsDocument (← r.peek).start r
        finish y) := by
      refine .bind (readStart_leaves fuel h) fun r h => ?_
      refine .bind h.peek fun t _ => ?_
      exact .bind (hReads.part .block endsDocument t.start h) fun _ h => hFinish h
    split
    · exact hStarted
    · exact hStarted
    · exact .bind (hReads.node (r := { r with handles := standardHandles }) .block h)
        fun _ h => hFinish h

theorem document_expected [Limits] (text : List Char) : FailsBy Expected (document? text) :=
  have h : NodeReader.Sound { tokens := Lexer.stream text, room := Limits.nodes } :=
    Lexer.stream_sound text
  (readDocument_expected (stepBound text) h).failsBy

end Graph

end EntityGraph.Markup
