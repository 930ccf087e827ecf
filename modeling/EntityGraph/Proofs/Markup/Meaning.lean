import EntityGraph.Proofs.Markup.Node

/-!
# Failures of values

The value of a document is refused where its nodes break a rule.  What is raised besides comes from
the text of a tagged scalar, from a moment without a text of its own, and from data that is nested
deeper than there is room for.

* `Graph.scalarValue_expected`, `Graph.flatten_expected`: the failures of scalars and of merges;
* `Graph.value_expected`: those of the value of a document;
* `parse_expected`: those of the value of a text.
-/

namespace EntityGraph.Markup

/-! ## Scalars -/

@[grind ←]
theorem boolOfPoints_expected (ps : List Text.Point) : FailsBy Expected (boolOfPoints ps) :=
  fun _ hFail => .inr (.bool hFail)

@[grind ←]
theorem intOfPoints_expected (ps : List Text.Point) : FailsBy Expected (intOfPoints ps) :=
  fun _ hFail => .inr (.int hFail)

@[grind ←]
theorem floatOfPoints_expected (ps : List Text.Point) : FailsBy Expected (floatOfPoints ps) :=
  fun _ hFail => .inr (.float hFail)

@[grind ←]
theorem timeOfPoints_expected (ps : List Text.Point) : FailsBy Expected (timeOfPoints ps) :=
  fun _ hFail => .inr (.moment hFail)

@[grind ←]
theorem bytesOfPoints_expected (mark : Mark) (ps : List Text.Point) :
    FailsBy Expected (bytesOfPoints mark ps) := by
  grind [bytesOfPoints]

@[grind ←]
theorem nested_expected : Expected .nestedTooDeep := .inr .nested

@[grind ←]
theorem misplaced_expected :
    Expected (.wrongKind "expected string or bytes-like object, got 'list'") :=
  .inr .misplaced

namespace Graph

@[grind ←]
theorem pointsWithin_expected (g : Graph) (steps : Nat) (p : Place) :
    FailsBy Expected (g.pointsWithin steps p) := by
  induction steps generalizing p with
  | zero => exact FailsBy.error_iff.mpr nested_expected
  | succ steps ih =>
    rw [pointsWithin]
    split
    · exact .ok _
    · exact refuseAt_expected
    · split
      · exact ih _
      · exact refuseAt_expected

section

variable [Limits]

@[grind ←]
theorem points_expected (g : Graph) (p : Place) : FailsBy Expected (g.points p) :=
  pointsWithin_expected g _ p

@[grind ←]
theorem scalarValue_expected (g : Graph) (p : Place) : FailsBy Expected (g.scalarValue p) := by
  grind [scalarValue]

end

/-! ## Merges -/

section

variable {flatten : Place → Graph → Except Failure Graph}
  (hFlatten : ∀ p g, FailsBy Expected (flatten p g))
include hFlatten

theorem mergedItems_expected (mark : Mark) (ps : List Place) (g : Graph) :
    FailsBy Expected (mergedItems flatten mark ps g) := by
  induction ps generalizing g with
  | nil => exact .ok ([], g)
  | cons p ps ih =>
    rw [mergedItems]
    refine .ite (.bind refuse_expected fun _ => ?_) ?_
    all_goals
      refine .bind (hFlatten p g) fun g => ?_
      exact .bind (ih g) fun _ => .pure _

theorem mergedFrom_expected (mark : Mark) (source : Place) (g : Graph) :
    FailsBy Expected (mergedFrom flatten mark source g) := by
  rw [mergedFrom]
  split
  · exact .bind (hFlatten source g) fun _ => .pure _
  · exact mergedItems_expected hFlatten mark _ g
  · exact refuse_expected

end

theorem takeMerges_expected (steps room : Nat) (p : Place) (g : Graph) :
    FailsBy Expected (takeMerges steps room p g) := by
  induction steps generalizing room p g with
  | zero => exact FailsBy.ok ([], g)
  | succ steps ih =>
    rw [takeMerges]
    split
    · exact FailsBy.ok ([], g)
    · refine FailsBy.bind ?_ fun (first, g) => ?_
      · refine mergedFrom_expected (fun q g => ?_) _ _ _
        split
        · exact FailsBy.error_iff.mpr nested_expected
        · exact (ih _ q g).map
      · exact FailsBy.bind (ih room p g) fun _ => FailsBy.pure _

@[grind ←]
theorem flatten_expected [Limits] (g : Graph) (p : Place) : FailsBy Expected (g.flatten p) :=
  (takeMerges_expected _ _ p g).map

end Graph

/-! ## Documents -/

section

variable [Limits]

namespace Reading

variable (r : Reading)

@[grind ←]
theorem meet_expected (p : Place) : FailsBy Expected (r.meet p) := by
  grind [meet]

@[grind ←]
theorem meetEntry_expected (mark : Mark) (e : Entry) :
    FailsBy Expected (meetEntry mark r e) := by
  refine .bind (r.meet_expected e.1) fun r => ?_
  split
  · exact r.meet_expected e.2
  · exact refuse_expected

@[grind ←]
theorem openMapping_expected (p : Place) : FailsBy Expected (r.openMapping p) := by
  have hEntries (mark : Mark) (r : Reading) (es : List Entry) :
      FailsBy Expected (es.foldlM (meetEntry mark) r) :=
    FailsBy.foldlM (fun r e _ => meetEntry_expected r mark e) r
  grind [openMapping]

@[grind ←]
theorem openSequence_expected (p : Place) : FailsBy Expected (r.openSequence p) := by
  have hItems (items : List Place) : FailsBy Expected (items.foldlM meet r) :=
    FailsBy.foldlM (fun r p _ => meet_expected r p) r
  grind [openSequence]

@[grind ←]
theorem openPair_expected (n : Node) (p : Place) : FailsBy Expected (openPair n r p) := by
  grind [openPair]

@[grind ←]
theorem openPairs_expected (p : Place) : FailsBy Expected (r.openPairs p) := by
  rw [openPairs]
  split
  · exact FailsBy.foldlM (fun (es, r) item _ => (openPair_expected r _ item).map) _
  · exact refuse_expected

theorem openNode_expected (p : Place) : FailsBy Expected (r.openNode p) := by
  grind [openNode]

theorem openWaiting_expected (rounds : Nat) : FailsBy Expected (r.openWaiting rounds) := by
  induction rounds generalizing r with
  | zero => exact FailsBy.ok r
  | succ rounds ih =>
    rw [openWaiting]
    refine .ite (FailsBy.ok r) (FailsBy.bind ?_ ih)
    exact FailsBy.foldlM (fun r p _ => openNode_expected r p) _

end Reading

theorem Graph.value_expected (g : Graph) (root : Place) : FailsBy Expected (g.value root) :=
  FailsBy.bind (Reading.meet_expected _ root) fun r =>
    FailsBy.bind (r.openWaiting_expected g.size) fun _ => FailsBy.pure _

end

/-! ## Texts -/

theorem checkCharacters_expected (cs : List Char) : FailsBy Expected (checkCharacters cs) := by
  grind [checkCharacters]

/-- A text that has no value is refused, or one of its parts is raised. -/
theorem parse_expected [Limits] (s : String) : FailsBy Expected (parse s) := by
  rw [parse]
  refine FailsBy.bind (checkCharacters_expected _) fun _ => ?_
  refine FailsBy.bind (Graph.document_expected _) fun document => ?_
  cases document with
  | none => exact FailsBy.pure Value.null
  | some document => exact Graph.value_expected document.2 document.1

/-! ## What is raised -/

/-- The classes of the failures that are raised. -/
def raisedTitles : List String :=
  ["ValueError", "KeyError", "IndexError", "OverflowError", "AttributeError", "TypeError",
    "RecursionError"]

def HasRaisedTitle (f : Failure) : Prop := f.title ∈ raisedTitles

instance (f : Failure) : Decidable (HasRaisedTitle f) :=
  inferInstanceAs (Decidable (f.title ∈ raisedTitles))

theorem unreadableScalar_title (message : String) :
    HasRaisedTitle (.unreadableScalar message) :=
  List.mem_cons_self

theorem emptyNumber_title : HasRaisedTitle .emptyNumber := by decide

theorem pointOfCode_title (code : Nat) : FailsBy HasRaisedTitle (pointOfCode code) := by
  have hLarge : HasRaisedTitle .numberTooLarge := by decide
  have hRange := unreadableScalar_title "chr() arg not in range(0x110000)"
  grind [pointOfCode]

theorem boolOfPoints_title (ps : List Text.Point) : FailsBy HasRaisedTitle (boolOfPoints ps) := by
  have hWord (word : List Text.Point) : HasRaisedTitle (.unknownWord word) :=
    List.mem_cons_of_mem _ List.mem_cons_self
  grind [boolOfPoints]

theorem intIn_title (base : Nat) (ps : List Text.Point) :
    FailsBy HasRaisedTitle (intIn base ps) := by
  have hDigits (count : Nat) : HasRaisedTitle (tooManyDigits count) := unreadableScalar_title _
  have hText : HasRaisedTitle (notAnInt base ps) := unreadableScalar_title _
  grind [intIn]

theorem magnitudeOf_title (ps : List Text.Point) : FailsBy HasRaisedTitle (magnitudeOf ps) := by
  unfold magnitudeOf
  split
  · exact FailsBy.error_iff.mpr emptyNumber_title
  · exact FailsBy.ok 0
  · exact intIn_title 2 _
  · exact intIn_title 16 _
  · exact intIn_title 8 _
  · exact .ite (FailsBy.mapM fun part _ => intIn_title 10 part).map (intIn_title 10 ps)

theorem intOfPoints_title (ps : List Text.Point) : FailsBy HasRaisedTitle (intOfPoints ps) := by
  unfold intOfPoints
  exact .ite (FailsBy.error_iff.mpr emptyNumber_title) (magnitudeOf_title _).map

theorem floatIn_title (ps : List Text.Point) : FailsBy HasRaisedTitle (floatIn ps) := by
  unfold floatIn
  refine .ite (FailsBy.ok _) (.ite (FailsBy.ok _) ?_)
  split
  · exact FailsBy.ok _
  · exact FailsBy.error_iff.mpr (unreadableScalar_title _)

theorem sumOfPlaces_title (weight : Nat) (total : Binary64) (places : List Binary64) :
    FailsBy HasRaisedTitle (sumOfPlaces weight total places) := by
  induction places generalizing weight total with
  | nil => exact FailsBy.ok total
  | cons d rest ih =>
    rw [sumOfPlaces]
    split
    · exact FailsBy.error_iff.mpr (by decide)
    · exact ih _ _

theorem floatMagnitude_title (ps : List Text.Point) :
    FailsBy HasRaisedTitle (floatMagnitude ps) := by
  unfold floatMagnitude
  refine .ite (FailsBy.ok _) (.ite (FailsBy.ok _) (.ite ?_ (floatIn_title ps)))
  exact FailsBy.bind (FailsBy.mapM fun part _ => floatIn_title part) fun places =>
    sumOfPlaces_title 1 _ places.reverse

theorem floatOfPoints_title (ps : List Text.Point) :
    FailsBy HasRaisedTitle (floatOfPoints ps) := by
  unfold floatOfPoints
  exact .ite (FailsBy.error_iff.mpr emptyNumber_title) (floatMagnitude_title _).map

theorem timeOfPoints_title (ps : List Text.Point) : FailsBy HasRaisedTitle (timeOfPoints ps) := by
  unfold timeOfPoints Timestamp.value
  split
  · exact FailsBy.error_iff.mpr (by decide)
  · exact FailsBy.mapError fun fault => unreadableScalar_title _

/-- What is raised is never the report of a refusal. -/
theorem Raised.hasTitle {f : Failure} (h : Raised f) : HasRaisedTitle f := by
  cases h with
  | version h => exact unreadableScalar_title _
  | escape h => exact pointOfCode_title _ _ h
  | bool h => exact boolOfPoints_title _ _ h
  | int h => exact intOfPoints_title _ _ h
  | float h => exact floatOfPoints_title _ _ h
  | moment h => exact timeOfPoints_title _ _ h
  | misplaced => decide
  | nested => decide

end EntityGraph.Markup
