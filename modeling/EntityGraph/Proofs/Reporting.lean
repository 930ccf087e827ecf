import EntityGraph.Input.Text
import EntityGraph.Proofs.Input.Definitions
import EntityGraph.Proofs.Markup.Meaning
import EntityGraph.Proofs.Run

/-!
# What is reported of a text

A text that breaks the rules of the notation is refused, and so is a value that breaks the
structural rules; a run reports either.  But the readings of tagged scalars, of version numbers and
of escapes fail with what their own conversions raise, and a text that is nested deeper than the
stack allows fails for that; nothing on the way turns either into a report.  These are the only
failures that escape, so a run gives a report exactly if the text raises none.

* `Raises`: a text whose reading raises a failure;
* `report_iff`: a text is reported on exactly if it raises nothing;
* `title_raised_iff`: the classes of failures that texts raise.
-/

namespace EntityGraph

open Input Outcome

theorem not_raised_invalidDefinitions (vs : List Violation) :
    ¬ Markup.Raised (.invalidDefinitions vs) := by
  intro h
  have hTitle : Markup.HasRaisedTitle (.invalidDefinitions vs) := h.hasTitle
  exact absurd hTitle (by simp [Markup.HasRaisedTitle, Markup.raisedTitles, Failure.title])

/-- Whatever a value lacks is reported. -/
theorem parse_reported (raw : Value) :
    FailsBy (fun f => ∃ vs, f = .invalidDefinitions vs) (parse raw).value :=
  FailsBy.mapError fun vs => ⟨vs, rfl⟩

/-- Definitions that were read have operations of known kinds. -/
theorem kinds_of_parse {raw : Value} {d : Definitions} {settings : Configuration}
    (h : (parse raw).value = .ok (d, settings)) :
    ∀ m ∈ d.models, ∀ op ∈ m.operations, ∃ kind, op.kind? = .ok kind := by
  intro m hm op hop
  obtain ⟨v, hModel⟩ := (Definitions.read_of_parse h).2 m hm
  exact ((Model.wellFormed_of_read hModel).operations op hop).kind

section

variable [Limits]

/-- The reading of a text ends with a failure that is no refusal. -/
def Raises (text : String) (f : Failure) : Prop := Markup.Raised f ∧ Markup.parse text = .error f

/-- The definitions of a text are read, or reported, or raised. -/
theorem parseText_failsBy (text : String) :
    FailsBy (fun f => (∃ vs, f = .invalidDefinitions vs) ∨ Raises text f) (parseText text).value := by
  unfold parseText
  split
  · rename_i failure hParse
    refine FailsBy.error_iff.mpr ?_
    rcases Markup.parse_expected text failure hParse with ⟨reason, rfl⟩ | hRaised
    · exact .inl ⟨_, rfl⟩
    · exact .inr ⟨hRaised, hParse⟩
  · exact (parse_reported _).mono fun _ hReported => .inl hReported

theorem parseText_of_raises {text : String} {f : Failure} (h : Raises text f) :
    (parseText text).value = .error f := by
  simp [parseText, h.2]

theorem kinds_of_parseText {text : String} {d : Definitions} {c : Configuration}
    (h : (parseText text).value = .ok (d, c)) :
    ∀ m ∈ d.models, ∀ op ∈ m.operations, ∃ kind, op.kind? = .ok kind := by
  unfold parseText at h
  split at h
  · cases h
  · exact kinds_of_parse h

theorem generateFrom_of_raises (o : Options) {text : String} {f : Failure} (h : Raises text f) :
    (Pipeline.generateFrom o (parseText text)).value = .error f := by
  have hOther : ∀ vs, f ≠ .invalidDefinitions vs := by
    rintro vs rfl
    exact not_raised_invalidDefinitions vs h.1
  rw [Pipeline.generateFrom_value, parseText_of_raises h]
  split
  · rename_i hEq
    cases hEq
  · rename_i vs hEq
    exact absurd (Except.error.inj hEq) (hOther vs)
  · rename_i hEq
    exact congrArg Except.error (Except.error.inj hEq).symm

theorem parseText_of_silent {text : String} (h : ¬ ∃ f, Raises text f) :
    (∃ read, (parseText text).value = .ok read) ∨
      ∃ vs, (parseText text).value = .error (.invalidDefinitions vs) := by
  cases hReading : (parseText text).value with
  | ok read => exact .inl ⟨read, rfl⟩
  | error f =>
    rcases parseText_failsBy text f hReading with ⟨vs, rfl⟩ | hRaises
    · exact .inr ⟨vs, rfl⟩
    · exact absurd ⟨f, hRaises⟩ h

theorem generateFrom_of_silent (o : Options) {text : String} (h : ¬ ∃ f, Raises text f) :
    ∃ report, (Pipeline.generateFrom o (parseText text)).value = .ok report := by
  rw [Pipeline.generateFrom_value]
  rcases parseText_of_silent h with ⟨⟨d, c⟩, hRead⟩ | ⟨vs, hReported⟩
  · rw [hRead]
    exact Pipeline.resume_ok (kinds_of_parseText hRead) _
  · rw [hReported]
    exact ⟨_, rfl⟩

/-- The definitions of a text are read, or what is wrong with them is reported, unless its reading
raises a failure, which is then of another class; and a run over it gives a report exactly if it
raises none. -/
theorem report_iff (text : String) :
    ((∃ read, (parseText text).value = .ok read) ∨
      (∃ vs, (parseText text).value = .error (.invalidDefinitions vs)) ↔ ¬ ∃ f, Raises text f) ∧
    (∀ f, Raises text f → (parseText text).value = .error f ∧ Markup.HasRaisedTitle f) ∧
    ∀ o : Options, (∃ report, (Pipeline.generateFrom o (parseText text)).value = .ok report) ↔
      ¬ ∃ f, Raises text f := by
  refine ⟨⟨?_, parseText_of_silent⟩, fun f hRaises => ?_, fun o => ⟨?_, generateFrom_of_silent o⟩⟩
  · rintro (⟨read, hRead⟩ | ⟨vs, hReported⟩) ⟨f, hRaises⟩
    · rw [parseText_of_raises hRaises] at hRead
      cases hRead
    · rw [parseText_of_raises hRaises] at hReported
      obtain rfl := Except.error.inj hReported
      exact not_raised_invalidDefinitions vs hRaises.1
  · exact ⟨parseText_of_raises hRaises, hRaises.1.hasTitle⟩
  · rintro ⟨report, hReport⟩ ⟨f, hRaises⟩
    rw [generateFrom_of_raises o hRaises] at hReport
    cases hReport

end

/-- A plain scalar with the form of a date is read as one, whatever its month. -/
theorem noMonth_raises : Raises "2020-13-45" (.unreadableScalar "month must be in 1..12") := by
  have hTime : Markup.timeOfPoints ("2020-13-45".toList.map .char) =
      .error (.unreadableScalar "month must be in 1..12") := by rfl
  exact ⟨.moment hTime, by rfl⟩

theorem noMonth_unreported :
    (parseText "2020-13-45").value = .error (.unreadableScalar "month must be in 1..12") ∧
    ∀ o : Options,
      ¬ ∃ report, (Pipeline.generateFrom o (parseText "2020-13-45")).value = .ok report := by
  obtain ⟨-, hRaised, hReport⟩ := report_iff "2020-13-45"
  refine ⟨(hRaised _ noMonth_raises).1, fun o hSome => ?_⟩
  exact (hReport o).mp hSome ⟨_, noMonth_raises⟩

/-! ## Classes of failures -/

/-- The class of the failure that the reading of a text ends with, if it ends with one. -/
def failureTitle? (text : String) : Option String :=
  match Markup.parse text with
  | .error f => some f.title
  | .ok _ => none

theorem raises_of_title {text title : String} (h : failureTitle? text = some title)
    (hOther : title ≠ "ModelValidationError") : ∃ f, Raises text f ∧ f.title = title := by
  unfold failureTitle? at h
  split at h
  · rename_i f hParse
    obtain rfl := Option.some.inj h
    rcases Markup.parse_expected text f hParse with ⟨reason, rfl⟩ | hRaised
    · exact absurd rfl hOther
    · exact ⟨f, ⟨hRaised, hParse⟩, rfl⟩
  · cases h

/-- The classes of the failures that texts raise on an empty stack. -/
theorem title_raised_iff (title : String) :
    (∃ text f, Raises text f ∧ f.title = title) ↔ title ∈ Markup.raisedTitles := by
  constructor
  · rintro ⟨text, f, hRaises, rfl⟩
    exact hRaises.1.hasTitle
  · intro h
    simp only [Markup.raisedTitles, List.mem_cons, List.not_mem_nil, or_false] at h
    rcases h with rfl | rfl | rfl | rfl | rfl | rfl | rfl
    · exact ⟨_, _, noMonth_raises, rfl⟩
    · exact ⟨"!!bool maybe", raises_of_title (by decide +kernel) (by decide)⟩
    · exact ⟨"!!int ''", raises_of_title (by decide +kernel) (by decide)⟩
    · exact ⟨"\"\\U80000000\"", raises_of_title (by decide +kernel) (by decide)⟩
    · exact ⟨"!!timestamp now", raises_of_title (by decide +kernel) (by decide)⟩
    · exact ⟨"!!timestamp \x7b=: now\x7d", raises_of_title (by decide +kernel) (by decide)⟩
    · exact ⟨"!!str &a \x7b=: *a\x7d", raises_of_title (by decide +kernel) (by decide)⟩

end EntityGraph
