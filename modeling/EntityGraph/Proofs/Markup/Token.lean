import EntityGraph.Markup.Meaning
import EntityGraph.Proofs.Failing

/-!
# Failures of tokens

A text is refused where it breaks the rules of the notation.  Besides, the reading of tokens can
fail in two ways that are no refusals: a version number may have too many digits, and an escape may
name a number that is no code point.

* `Raised`: the failures that are no refusals, by what raises them;
* `Expected`: a refusal or one of these;
* `Lexer.stream_sound`: the failure that the tokens of a text end with is expected.
-/

namespace EntityGraph.Markup

/-- The failures that are raised, not reported, by what raises them: the digits of a version number,
the number of an escape, the text of a tagged scalar, a moment whose text is that of a mapping, and
data that is nested deeper than there is room for, as a text is that is defined by itself. -/
inductive Raised : Failure → Prop
  | version {count : Nat} (h : count > Value.mostDigits) : Raised (tooManyDigits count)
  | escape {code : Nat} {f : Failure} (h : pointOfCode code = .error f) : Raised f
  | bool {ps : List Text.Point} {f : Failure} (h : boolOfPoints ps = .error f) : Raised f
  | int {ps : List Text.Point} {f : Failure} (h : intOfPoints ps = .error f) : Raised f
  | float {ps : List Text.Point} {f : Failure} (h : floatOfPoints ps = .error f) : Raised f
  | moment {ps : List Text.Point} {f : Failure} (h : timeOfPoints ps = .error f) : Raised f
  | misplaced : Raised (.wrongKind "expected string or bytes-like object, got 'list'")
  | nested : Raised .nestedTooDeep

/-- A text that is refused, for a reason that is reported. -/
def IsRefusal (f : Failure) : Prop := ∃ reason, f = .invalidDefinitions [⟨[], .unreadableText reason⟩]

def Expected (f : Failure) : Prop := IsRefusal f ∨ Raised f

section Refusals

variable {α : Type} {mark since : Mark} {message activity : String}

@[grind ←]
theorem refuseText_expected : FailsBy Expected (refuseText message : Except Failure α) :=
  FailsBy.error_iff.mpr (.inl ⟨message, rfl⟩)

@[grind ←]
theorem refuseAt_expected : FailsBy Expected (refuseAt mark message : Except Failure α) :=
  refuseText_expected

@[grind ←]
theorem refuse_expected :
    FailsBy Expected (refuse activity since message mark : Except Failure α) :=
  refuseText_expected

end Refusals

@[grind ←]
theorem tooManyDigits_expected {count : Nat} (h : count > Value.mostDigits) :
    Expected (tooManyDigits count) :=
  .inr (.version h)

/-! ## Names, tags and directives -/

@[grind ←]
theorem readName_expected (isAlias : Bool) (m : Mark) : FailsBy Expected (readName isAlias m) := by
  grind [readName]

@[grind ←]
theorem uriBytes_expected (activity : String) (since : Mark) (fuel : Nat) (m : Mark) :
    FailsBy Expected (uriBytes activity since fuel m) := by
  induction fuel generalizing m with
  | zero => exact .ok ([], m)
  | succ fuel ih =>
    rw [uriBytes]
    refine .ite (.ok ([], m)) ?_
    split
    · exact refuse_expected
    · exact .bind (ih _) fun _ => .pure _

@[grind ←]
theorem uriEscapes_expected (activity : String) (since m : Mark) :
    FailsBy Expected (uriEscapes activity since m) := by
  grind [uriEscapes]

@[grind ←]
theorem uriChars_expected (activity : String) (since : Mark) (fuel : Nat) (m : Mark) :
    FailsBy Expected (uriChars activity since fuel m) := by
  induction fuel generalizing m with
  | zero => exact .ok ([], m)
  | succ fuel ih =>
    rw [uriChars]
    split
    · exact .ok ([], m)
    · refine .ite ?_ (.ite ?_ (.ok ([], m)))
      · refine .bind (uriEscapes_expected activity since m) fun (cs, rest) => ?_
        exact .bind (ih rest) fun _ => .pure _
      · exact .bind (ih m.next) fun _ => .pure _

@[grind ←]
theorem readUri_expected (noun : String) (since m : Mark) :
    FailsBy Expected (readUri noun since m) := by
  refine .bind (uriChars_expected _ since m.left m) fun (cs, rest) => ?_
  exact .ite (.bind refuse_expected fun _ => .pure _) (.pure _)

@[grind ←]
theorem readHandle_expected (noun : String) (since m : Mark) :
    FailsBy Expected (readHandle noun since m) := by
  grind [readHandle]

@[grind ←]
theorem readTagParts_expected (m : Mark) : FailsBy Expected (readTagParts m) := by
  rw [readTagParts]
  refine .ite ?_ (.ite (.pure _) ?_)
  · refine .bind (readUri_expected "tag" m _) fun (suffix, rest) => ?_
    exact .ite (.bind refuse_expected fun _ => .pure _) (.pure _)
  · refine .ite (.bind (readHandle_expected "tag" m m) fun (handle, rest) => ?_)
      (.bind (.pure ("!", m.next)) fun (handle, rest) => ?_)
    all_goals exact .bind (readUri_expected "tag" m _) fun _ => .pure _

@[grind ←]
theorem readTag_expected (m : Mark) : FailsBy Expected (readTag m) := by
  refine .bind (readTagParts_expected m) fun (symbol, rest) => ?_
  exact .ite (.bind refuse_expected fun _ => .pure _) (.pure _)

@[grind ←]
theorem endLine_expected (activity : String) (since m : Mark) :
    FailsBy Expected (endLine activity since m) := by
  grind [endLine]

@[grind ←]
theorem directiveName_expected (since m : Mark) : FailsBy Expected (directiveName since m) := by
  grind [directiveName]

@[grind ←]
theorem versionNumber_expected (since m : Mark) : FailsBy Expected (versionNumber since m) := by
  grind [versionNumber]

@[grind ←]
theorem readVersion_expected (since m : Mark) : FailsBy Expected (readVersion since m) := by
  grind [readVersion]

@[grind ←]
theorem readTagDirective_expected (since m : Mark) :
    FailsBy Expected (readTagDirective since m) := by
  grind [readTagDirective]

@[grind ←]
theorem readDirective_expected (m : Mark) : FailsBy Expected (readDirective m) := by
  grind [readDirective]

/-! ## Scalars -/

@[grind ←]
theorem readCode_expected (since m : Mark) (length : Nat) :
    FailsBy Expected (readCode since m length) := by
  grind [readCode]

@[grind ←]
theorem pointOfCode_expected (code : Nat) : FailsBy Expected (pointOfCode code) :=
  fun _ hFail => .inr (.escape hFail)

@[grind ←]
theorem quotedBreaks_expected (since : Mark) (fuel : Nat) (m : Mark) :
    FailsBy Expected (quotedBreaks since fuel m) := by
  induction fuel generalizing m with
  | zero => exact .ok ([], m)
  | succ fuel ih =>
    rw [quotedBreaks]
    refine .ite (.bind refuse_expected fun _ => ?_) ?_
    all_goals exact .ite (.bind (ih _) fun _ => .pure _) (.pure _)

@[grind ←]
theorem quotedSpaces_expected (since m : Mark) : FailsBy Expected (quotedSpaces since m) := by
  grind [quotedSpaces]

@[grind ←]
theorem readEscape_expected (since m : Mark) : FailsBy Expected (readEscape since m) := by
  grind [readEscape]

@[grind ←]
theorem quotedWord_expected (double : Bool) (since : Mark) (fuel : Nat) (m : Mark) :
    FailsBy Expected (quotedWord double since fuel m) := by
  induction fuel generalizing m with
  | zero => exact .ok ([], m)
  | succ fuel ih =>
    rw [quotedWord]
    split
    · exact .ok ([], m)
    · have hTake {f : List Text.Point × Mark → List Text.Point × Mark} (rest : Mark) :
          FailsBy Expected ((quotedWord double since fuel rest).map f) :=
        (ih rest).map
      refine .ite (.ok _) (.ite (.ite (hTake _) (.ok _)) (.ite (.ok _) (.ite ?_ (hTake _))))
      exact .bind (readEscape_expected since m.next) fun (ps, rest) => hTake rest

@[grind ←]
theorem quotedContents_expected (double : Bool) (since : Mark) (fuel : Nat) (m : Mark) :
    FailsBy Expected (quotedContents double since fuel m) := by
  induction fuel generalizing m with
  | zero => exact .ok ([], m)
  | succ fuel ih =>
    rw [quotedContents]
    refine .bind (quotedWord_expected double since m.left m) fun (word, m) => ?_
    refine .ite (.pure _) ?_
    refine .bind (quotedSpaces_expected since m) fun (gap, m) => ?_
    exact .bind (ih m) fun _ => .pure _

@[grind ←]
theorem readQuoted_expected (double : Bool) (m : Mark) :
    FailsBy Expected (readQuoted double m) :=
  .bind (quotedContents_expected double m _ m.next) fun _ => .pure _

@[grind ←]
theorem blockIndent_expected (since m : Mark) : FailsBy Expected (blockIndent since m) := by
  grind [blockIndent]

@[grind ←]
theorem blockIndicators_expected (since m : Mark) :
    FailsBy Expected (blockIndicators since m) := by
  grind [blockIndicators]

@[grind ←]
theorem readBlock_expected (folded : Bool) (indent : Int) (m : Mark) :
    FailsBy Expected (readBlock folded indent m) := by
  grind [readBlock]

/-! ## Tokens one by one -/

namespace Lexer

@[grind ←]
theorem refuseCandidate_expected {α : Type} (c : KeyCandidate) (m : Mark) :
    FailsBy Expected (refuseCandidate c m : Except Failure α) :=
  refuse_expected

@[grind ←]
theorem giveUpCandidate_expected (l : Lexer) : FailsBy Expected l.giveUpCandidate := by
  grind [giveUpCandidate]

theorem freshCandidates_expected (l : Lexer) (cs : List (Nat × KeyCandidate)) :
    FailsBy Expected (l.freshCandidates cs) := by
  induction cs with
  | nil => exact .ok []
  | cons c cs ih =>
    rw [freshCandidates]
    exact .ite (.ite (refuseCandidate_expected c.2 l.mark) ih) ih.map

theorem dropStale_expected (l : Lexer) : FailsBy Expected l.dropStale :=
  (l.freshCandidates_expected l.candidates).map

theorem saveCandidate_expected (l : Lexer) : FailsBy Expected l.saveCandidate :=
  .ite (.pure l) (.bind l.giveUpCandidate_expected fun _ => .pure _)

theorem fetchEnd_expected (l : Lexer) : FailsBy Expected l.fetchEnd :=
  .bind (giveUpCandidate_expected _) fun _ => .pure _

theorem fetchDirective_expected (l : Lexer) : FailsBy Expected l.fetchDirective := by
  refine .bind (giveUpCandidate_expected _) fun l => ?_
  exact .bind (readDirective_expected l.mark) fun _ => .pure _

theorem fetchSeparator_expected (l : Lexer) (symbol : Symbol) :
    FailsBy Expected (l.fetchSeparator symbol) :=
  .bind (giveUpCandidate_expected _) fun _ => .pure _

theorem fetchOpening_expected (l : Lexer) (symbol : Symbol) :
    FailsBy Expected (l.fetchOpening symbol) :=
  .bind l.saveCandidate_expected fun _ => .pure _

theorem fetchClosing_expected (l : Lexer) (symbol : Symbol) :
    FailsBy Expected (l.fetchClosing symbol) :=
  .bind l.giveUpCandidate_expected fun _ => .pure _

theorem fetchComma_expected (l : Lexer) : FailsBy Expected l.fetchComma :=
  .bind l.giveUpCandidate_expected fun _ => .pure _

theorem fetchEntry_expected (l : Lexer) : FailsBy Expected l.fetchEntry := by
  grind [fetchEntry]

theorem fetchKey_expected (l : Lexer) : FailsBy Expected l.fetchKey := by
  grind [fetchKey]

theorem fetchValue_expected (l : Lexer) : FailsBy Expected l.fetchValue := by
  grind [fetchValue]

theorem fetchContent_expected (l : Lexer) {read : Mark → Except Failure (Symbol × Mark)}
    (h : ∀ m, FailsBy Expected (read m)) : FailsBy Expected (l.fetchContent read) := by
  refine .bind l.saveCandidate_expected fun l => ?_
  exact .bind (h l.mark) fun _ => .pure _

theorem fetchPlain_expected (l : Lexer) : FailsBy Expected l.fetchPlain :=
  .bind l.saveCandidate_expected fun _ => .pure _

theorem fetchBlock_expected (l : Lexer) (folded : Bool) :
    FailsBy Expected (l.fetchBlock folded) := by
  refine .bind l.giveUpCandidate_expected fun l => ?_
  exact .bind (readBlock_expected folded l.indent l.mark) fun _ => .pure _

theorem quotedSymbol_expected (double : Bool) (m : Mark) :
    FailsBy Expected (quotedSymbol double m) :=
  (readQuoted_expected double m).map

theorem nameSymbol_expected (isAlias : Bool) (m : Mark) :
    FailsBy Expected (nameSymbol isAlias m) :=
  (readName_expected isAlias m).map

/-- Each character that starts a token has its reading. -/
theorem fetchAt_expected (l : Lexer) (c : Char) : FailsBy Expected (l.fetchAt c) := by
  unfold fetchAt
  exact
    .ite l.fetchDirective_expected <|
    .ite (l.fetchSeparator_expected _) <|
    .ite (l.fetchSeparator_expected _) <|
    .ite (l.fetchOpening_expected _) <|
    .ite (l.fetchOpening_expected _) <|
    .ite (l.fetchClosing_expected _) <|
    .ite (l.fetchClosing_expected _) <|
    .ite l.fetchComma_expected <|
    .ite l.fetchEntry_expected <|
    .ite l.fetchKey_expected <|
    .ite l.fetchValue_expected <|
    .ite (l.fetchContent_expected (nameSymbol_expected true)) <|
    .ite (l.fetchContent_expected (nameSymbol_expected false)) <|
    .ite (l.fetchContent_expected readTag_expected) <|
    .ite (l.fetchBlock_expected false) <|
    .ite (l.fetchBlock_expected true) <|
    .ite (l.fetchContent_expected (quotedSymbol_expected false)) <|
    .ite (l.fetchContent_expected (quotedSymbol_expected true)) <|
    .ite l.fetchPlain_expected refuseText_expected

theorem fetch_expected (l : Lexer) : FailsBy Expected l.fetch := by
  refine .bind (dropStale_expected _) fun l => ?_
  dsimp only
  split
  · exact fetchEnd_expected _
  · exact fetchAt_expected _ _

theorem fill_expected (fuel : Nat) (l : Lexer) : FailsBy Expected (fill fuel l) := by
  induction fuel generalizing l with
  | zero => exact .ok l
  | succ fuel ih =>
    rw [fill]
    refine .ite (.ok l) (.ite (.bind l.fetch_expected ih) ?_)
    refine .bind l.dropStale_expected fun l => ?_
    exact .ite (.bind l.fetch_expected ih) (.pure l)

end Lexer

/-! ## The stream -/

/-- The failure that a stream ends with, if it ends with one, is expected. -/
inductive TokenStream.Sound : TokenStream → Prop
  | fail {failure : Failure} (h : Expected failure) : Sound (.fail failure)
  | finish (last : Token) : Sound (.finish last)
  | cons (token : Token) {rest : TokenStream} (h : Sound rest) : Sound (.cons token rest)

namespace TokenStream.Sound

variable {s : TokenStream}

theorem head (h : s.Sound) : FailsBy Expected s.head := by
  cases h with
  | fail hFail => exact FailsBy.error_iff.mpr hFail
  | finish last => exact FailsBy.ok last
  | cons token hRest => exact FailsBy.ok token

theorem tail (h : s.Sound) : s.tail.Sound := by
  cases h with
  | fail hFail => exact .fail hFail
  | finish last => exact .finish last
  | cons token hRest => exact hRest

end TokenStream.Sound

namespace Lexer

theorem streamFrom_sound (fuel : Nat) (l : Lexer) : (streamFrom fuel l).Sound := by
  induction fuel generalizing l with
  | zero => exact .finish _
  | succ fuel ih =>
    rw [streamFrom]
    split
    · rename_i failure hFill
      exact .fail (fill_expected _ l failure hFill)
    · split
      · exact .finish _
      · split
        · exact .finish _
        · exact .cons _ (ih _)

theorem stream_sound (text : List Char) : (stream text).Sound := streamFrom_sound _ _

end Lexer

end EntityGraph.Markup
