import EntityGraph.Proofs.Handlers.Number

/-!
# Names in literals

A literal is read without any name, except where a value has no literal of its own kind: a date and
a moment are spelled as constructor calls, an infinity and a number that is none as a name, and the
empty set as a call.

* `Value.names`: the names that the literal of a value evaluates;
* `reads_literal`: the names of a literal are those of its value.
-/

namespace EntityGraph

open Expression

/-! ## Calls -/

namespace Expression

/-- A text that ends a word before it and starts none. -/
def IsSeparator (sep : String) : Prop := sep.toList ≠ [] ∧ ∀ c ∈ sep.toList, closes c = true

theorem isSeparator_comma : IsSeparator ", " := ⟨by decide, List.all_eq_true.mp (by decide)⟩

/-- Texts with separators between them, the first text apart. -/
theorem reads_separated {sep : String} (hSep : IsSeparator sep) {s : String} {ss : List String}
    {ns ms : List String} (h : Reads s.toList ns) (hRest : Reads (sep.intercalate ss).toList ms)
    (hNone : ss = [] → ms = []) : Reads (sep.intercalate (s :: ss)).toList (ns ++ ms) := by
  cases ss with
  | nil => simpa [hNone rfl] using h
  | cons t ts =>
    obtain ⟨c, cs, hText⟩ := List.exists_cons_of_ne_nil hSep.1
    have hCloses : ∀ d ∈ c :: cs, closes d = true := hText ▸ hSep.2
    have hLater := hRest.marks fun d hd => hCloses d (List.mem_cons_of_mem _ hd)
    have hAll := h.append (hCloses c List.mem_cons_self) hLater
    have hJoined : (sep.intercalate (s :: t :: ts)).toList =
        s.toList ++ c :: (cs ++ (sep.intercalate (t :: ts)).toList) := by
      rw [String.intercalate_cons_cons, String.toList_append, String.toList_append, hText]
      simp
    rwa [hJoined]

theorem reads_joined {sep : String} (hSep : IsSeparator sep) {α : Type} {f : α → String}
    {g : α → List String} {xs : List α} (h : ∀ x ∈ xs, Reads (f x).toList (g x)) :
    Reads (sep.intercalate (xs.map f)).toList (xs.flatMap g) := by
  induction xs with
  | nil => exact .nil
  | cons x xs ih =>
    have hLater := ih fun y hy => h y (List.mem_cons_of_mem _ hy)
    refine reads_separated hSep (h x List.mem_cons_self) hLater fun hEmpty => ?_
    rw [List.map_eq_nil_iff.mp hEmpty]
    rfl

/-- Arguments without names before others. -/
theorem reads_arguments {ps qs : List String} {ns : List String}
    (hFirst : ∀ p ∈ ps, Reads p.toList []) (hRest : Reads (", ".intercalate qs).toList ns)
    (hNone : qs = [] → ns = []) : Reads (", ".intercalate (ps ++ qs)).toList ns := by
  induction ps with
  | nil => exact hRest
  | cons p ps ih =>
    have hLater := ih fun q hq => hFirst q (List.mem_cons_of_mem _ hq)
    have hAll := reads_separated isSeparator_comma (hFirst p List.mem_cons_self) hLater fun hEmpty =>
      hNone (List.append_eq_nil_iff.mp hEmpty).2
    simpa using hAll

/-- A text between brackets. -/
theorem reads_enclosed {a b : Char} (hOpening : closes a = true)
    (hClosing : closes b = true) {cs : List Char} {ns : List String} (h : Reads cs ns) :
    Reads (a :: (cs ++ [b])) ns := by
  have hAll := h.append hClosing .nil
  rw [List.append_nil] at hAll
  exact .cons hOpening hAll

/-- A call of a word. -/
theorem reads_call {w cs : List Char} {ns : List String} (hWord : IsWord w) (h : Reads cs ns) :
    Reads (w ++ '(' :: (cs ++ [')'])) (wordNames w ++ ns) := by
  have hArguments := h.append (c := ')') (by decide) .nil
  rw [List.append_nil] at hArguments
  exact (Reads.word hWord).append (by decide) hArguments

end Expression

/-! ## Values -/

namespace Moment

/-- The names that the zone of a moment evaluates. -/
def zoneNames (m : Moment) : List String :=
  match m.offset with
  | none => []
  | some 0 => ["datetime"]
  | some _ => ["datetime", "datetime"]

/-- The names that the literal of a moment evaluates: the constructor, and what its zone is made
of. -/
def names (m : Moment) : List String := "datetime" :: m.zoneNames

end Moment

namespace Value

mutual

/-- The names that the literal of a value evaluates. -/
def names : Value → List String
  | float x => x.names
  | date _ => ["datetime"]
  | moment m => m.names
  | list xs | tuple xs => namesOfItems xs
  | set [] => ["set"]
  | set xs => namesOfItems xs
  | map es => namesOfEntries es
  | _ => []

def namesOfItems : List Value → List String
  | [] => []
  | x :: xs => names x ++ namesOfItems xs

def namesOfEntries : List (Value × Value) → List String
  | [] => []
  | (k, v) :: es => names k ++ names v ++ namesOfEntries es

end

end Value

namespace Expression

/-- The text of a call of a constructor in the calendar module. -/
theorem reads_calendarCall {f : String} (hName : IsWord f.toList)
    {parts : List String} {ns : List String} (h : Reads (", ".intercalate parts).toList ns) :
    Reads (Literal.calendarCall f parts).toList ("datetime" :: ns) := by
  have hPrefix : IsWord "datetime.".toList := by decide
  have hWord : IsWord ("datetime.".toList ++ f.toList) := isWord_append.mpr ⟨hPrefix, hName⟩
  have hCall := reads_call hWord h
  have hFirst : wordNames ("datetime.".toList ++ f.toList) = ["datetime"] := by
    have hHead : ("datetime.".toList ++ f.toList).takeWhile (· ≠ '.') =
        ['d', 'a', 't', 'e', 't', 'i', 'm', 'e'] := by simp
    simp only [wordNames, hHead]
    rfl
  rw [hFirst] at hCall
  simpa [Literal.calendarCall] using hCall

/-- Arguments that are numbers, maybe after names of parameters, have no names. -/
theorem reads_numbers {ps : List String} (h : ∀ p ∈ ps, Reads p.toList []) :
    Reads (", ".intercalate ps).toList [] := by
  have hNothing : Reads (", ".intercalate []).toList [] := .nil
  have hAll := reads_arguments h hNothing fun _ => rfl
  rwa [List.append_nil] at hAll

theorem reads_date (d : Date) : Reads (Literal.date d).toList ["datetime"] := by
  refine reads_calendarCall (by decide) (reads_numbers fun p hp => ?_)
  simp only [List.mem_cons, List.not_mem_nil, or_false] at hp
  rcases hp with rfl | rfl | rfl <;> exact reads_nat _

/-- The arguments of the constructor that a span of minutes is spelled with. -/
def spanParts (minutes : Int) : List String :=
  let days := minutes.fdiv 1440
  let seconds := minutes.fmod 1440 * 60
  let parts := (if days = 0 then [] else ["days=" ++ toString days]) ++
    (if seconds = 0 then [] else ["seconds=" ++ toString seconds])
  if parts.isEmpty then ["0"] else parts

theorem reads_spanParts (minutes : Int) : ∀ p ∈ spanParts minutes, Reads p.toList [] := by
  have hDays : Reads ("days=" ++ toString (minutes.fdiv 1440)).toList [] := by
    rw [String.toList_append]
    exact (reads_int _).argument (w := ['d', 'a', 'y', 's']) (by decide)
  have hSeconds : Reads ("seconds=" ++ toString (minutes.fmod 1440 * 60)).toList [] := by
    rw [String.toList_append]
    exact (reads_int _).argument (w := ['s', 'e', 'c', 'o', 'n', 'd', 's']) (by decide)
  intro p hp
  simp only [spanParts] at hp
  split_ifs at hp
  all_goals
    simp only [List.append_nil, List.nil_append, List.mem_append, List.mem_cons,
      List.not_mem_nil, or_false] at hp
  · exact hp ▸ reads_nat 0
  · exact hp ▸ reads_nat 0
  · exact hp ▸ hSeconds
  · exact hp ▸ reads_nat 0
  · exact hp ▸ hDays
  · exact hp ▸ reads_nat 0
  · rcases hp with rfl | rfl
    · exact hDays
    · exact hSeconds

theorem reads_span (minutes : Int) : Reads (Literal.span minutes).toList ["datetime"] :=
  reads_calendarCall (by decide) (reads_numbers (reads_spanParts minutes))

/-- The numbers of a moment that its constructor takes. -/
def momentNumbers (m : Moment) : List Nat :=
  let c := m.clock
  [m.date.year, m.date.month, m.date.day, c.hour, c.minute] ++
    if c.micro = 0 then (if c.second = 0 then [] else [c.second]) else [c.second, c.micro]

/-- The text of a moment's zone, if it has one. -/
def zoneTexts (m : Moment) : List String :=
  match m.offset with
  | none => []
  | some 0 => ["tzinfo=datetime.timezone.utc"]
  | some minutes => ["tzinfo=" ++ Literal.calendarCall "timezone" [Literal.span minutes]]

theorem moment_eq (m : Moment) : Literal.moment m =
    Literal.calendarCall "datetime" ((momentNumbers m).map toString ++ zoneTexts m) := by
  simp only [Literal.moment, momentNumbers, zoneTexts]
  split_ifs <;> rfl

theorem reads_zoneTexts (m : Moment) :
    Reads (", ".intercalate (zoneTexts m)).toList m.zoneNames := by
  have hZone : ∀ t ns, Reads t.toList ns → Reads ("tzinfo=" ++ t).toList ns := by
    intro t ns hRead
    rw [String.toList_append]
    exact hRead.argument (w := ['t', 'z', 'i', 'n', 'f', 'o']) (by decide)
  unfold zoneTexts Moment.zoneNames
  split
  · exact .nil
  · exact hZone "datetime.timezone.utc" ["datetime"] (Reads.word (by decide))
  · rename_i minutes _ _
    have hSpan : Reads (", ".intercalate [Literal.span minutes]).toList ["datetime"] := by
      simpa using reads_span minutes
    simpa using hZone _ _ (reads_calendarCall (f := "timezone") (by decide) hSpan)

theorem reads_moment (m : Moment) : Reads (Literal.moment m).toList m.names := by
  have hNumbers : ∀ p ∈ (momentNumbers m).map toString, Reads p.toList [] := by
    intro p hp
    obtain ⟨n, -, rfl⟩ := List.mem_map.mp hp
    exact reads_nat n
  have hNone : zoneTexts m = [] → m.zoneNames = [] := by
    unfold zoneTexts Moment.zoneNames
    split <;> simp
  rw [moment_eq]
  exact reads_calendarCall (by decide) (reads_arguments hNumbers (reads_zoneTexts m) hNone)

/-! ## Literals -/

theorem reads_null : Reads Literal.null.toList [] := .word (by decide)

theorem reads_bool (b : Bool) : Reads (Literal.bool b).toList [] := by
  cases b with
  | false => exact .word (by decide)
  | true => exact .word (by decide)

/-- Items between brackets. -/
theorem reads_bracketed {a b : Char} (hOpening : closes a = true)
    (hClosing : closes b = true) {s : String} {ns : List String} (h : Reads s.toList ns) :
    Reads (String.singleton a ++ s ++ String.singleton b).toList ns := by
  simpa using reads_enclosed hOpening hClosing h

theorem reads_emptySet : Reads (Value.set []).literal.toList ["set"] := by
  have hText : (Value.set []).literal.toList = ['s', 'e', 't'] ++ '(' :: ([] ++ [')']) := by
    simp [Value.literal]
  have hName : wordNames ['s', 'e', 't'] = ["set"] := rfl
  have hCall := reads_call (w := ['s', 'e', 't']) (by decide) .nil
  rwa [hName, List.append_nil, ← hText] at hCall

mutual

/-- The names of a literal are those of its value. -/
theorem reads_literal : ∀ v : Value, Reads v.literal.toList v.names
  | .null => reads_null
  | .bool b => reads_bool b
  | .int i => reads_int i
  | .float x => x.reads_shortest
  | .text s => by
    have hRead := reads_between (quoteFor_isQuote s.toList) s.toList
    simpa [Value.literal, Value.names, Literal.quoted, Literal.quotedChars] using hRead
  | .illFormed ps => by
    have hRead := reads_pointsBetween (quoteFor_isQuote (ps.map Text.Point.shown)) ps
    simpa [Value.literal, Value.names, Literal.quotedPoints] using hRead
  | .bytes bs => by
    have hRead := reads_bytesBetween (quoteFor_isQuote (bs.map fun b => Char.ofNat b.toNat)) bs
    simpa [Value.literal, Value.names, Literal.bytes] using hRead
  | .date d => reads_date d
  | .moment m => reads_moment m
  | .list xs => by
    have hRead := reads_bracketed (a := '[') (b := ']') (by decide) (by decide)
      (reads_literals xs)
    simpa [Value.literal, Value.names] using hRead
  | .tuple [] => by
    have hRead := reads_bracketed (a := '(') (b := ')') (by decide) (by decide)
      (reads_literals [])
    simpa [Value.literal, Value.names] using hRead
  | .tuple [x] => by
    have hEnd : Reads (x.literal.toList ++ [',']) (x.names ++ []) :=
      (reads_literal x).append (by decide) .nil
    have hAll := reads_enclosed (a := '(') (b := ')') (by decide) (by decide) hEnd
    simpa [Value.literal, Value.names, Value.namesOfItems] using hAll
  | .tuple (x :: y :: zs) => by
    have hRead := reads_bracketed (a := '(') (b := ')') (by decide) (by decide)
      (reads_literals (x :: y :: zs))
    simpa [Value.literal, Value.names] using hRead
  | .set [] => by
    rw [Value.names]
    exact reads_emptySet
  | .set (x :: xs) => by
    have hRead := reads_bracketed (a := '\x7b') (b := '\x7d') (by decide) (by decide)
      (reads_literals (x :: xs))
    simpa [Value.literal, Value.names] using hRead
  | .map es => by
    have hRead := reads_bracketed (a := '\x7b') (b := '\x7d') (by decide) (by decide)
      (reads_entryLiterals es)
    simpa [Value.literal, Value.names] using hRead

theorem reads_literals : ∀ xs : List Value,
    Reads (", ".intercalate (Value.literals xs)).toList (Value.namesOfItems xs)
  | [] => .nil
  | x :: xs => by
    have hNone : Value.literals xs = [] → Value.namesOfItems xs = [] := by
      cases xs <;> simp [Value.literals, Value.namesOfItems]
    simpa [Value.literals, Value.namesOfItems] using
      reads_separated isSeparator_comma (reads_literal x) (reads_literals xs) hNone

theorem reads_entryLiterals : ∀ es : List (Value × Value),
    Reads (", ".intercalate (Value.entryLiterals es)).toList (Value.namesOfEntries es)
  | [] => .nil
  | (k, v) :: es => by
    have hEntry : Reads (k.literal ++ ": " ++ v.literal).toList (k.names ++ v.names) := by
      have hPair := (reads_literal k).append (c := ':') (by decide)
        (.cons (c := ' ') (by decide) (reads_literal v))
      simpa using hPair
    have hNone : Value.entryLiterals es = [] → Value.namesOfEntries es = [] := by
      cases es <;> simp [Value.entryLiterals, Value.namesOfEntries]
    simpa [Value.entryLiterals, Value.namesOfEntries] using
      reads_separated isSeparator_comma hEntry (reads_entryLiterals es) hNone

end

end Expression

end EntityGraph
