import EntityGraph.Proofs.Executable.Grammar

/-!
# One reading of a document

Tokens are those of one document at most.  Read from the left, a tree ends where a token stands that
it cannot go on with, and what a tree may start with tells its form, so that of two trees with the
same tokens before such a rest the forms, the parts and the rests agree.

* `Avoids`: tokens that start with none of a kind;
* `Apart`: a tree that its tokens tell from every other;
* `Apart.list`, `Apart.optional`, `Apart.enclosed`, `Apart.group`: lists, what may be left out, and
  what stands between brackets;
* `Value.apart`, `Selection.apart`, `Definition.apart`: every tree is apart from the others;
* `definitions_prefix`, `definitions_inj`: definitions at the start of a document, and all of them;
* `Reads.unique`: a text reads as one document at most.
-/

namespace EntityGraph.Executable

/-- Tokens whose first one is none of a kind. -/
def Avoids (bad : Token → Prop) (ts : List Token) : Prop := ∀ t ∈ ts.head?, ¬ bad t

/-- An item that its tokens tell from every other, before whatever starts with no token of a kind. -/
def Apart {α : Type} (f : α → List Token) (bad : Token → Prop) (a : α) : Prop :=
  ∀ b rest rest', Avoids bad rest → Avoids bad rest' → f a ++ rest = f b ++ rest' →
    a = b ∧ rest = rest'

/-- One of these punctuators. -/
def among (ms : List Mark) (t : Token) : Prop := ∃ m ∈ ms, t = .mark m

namespace Avoids

variable {bad : Token → Prop} {ts us : List Token}

theorem nil : Avoids bad [] := by simp [Avoids]

theorem cons {t : Token} (h : ¬ bad t) : Avoids bad (t :: ts) := by simpa [Avoids] using h

theorem ne {t : Token} (h : Avoids bad ts) (hBad : bad t) : ts ≠ t :: us := by
  rintro rfl
  exact h t rfl hBad

theorem append (ht : Avoids bad ts) (hu : Avoids bad us) : Avoids bad (ts ++ us) := by
  cases ts with
  | nil => exact hu
  | cons t ts => exact ht

theorem mono {bad' : Token → Prop} (h : Avoids bad ts) (hLess : ∀ t, bad' t → bad t) :
    Avoids bad' ts :=
  fun t ht hBad => h t ht (hLess t hBad)

theorem among {ms ms' : List Mark} (h : Avoids (among ms) ts) (hLess : ms' ⊆ ms) :
    Avoids (Executable.among ms') ts :=
  h.mono fun _ ⟨m, hm, hEq⟩ => ⟨m, hLess hm, hEq⟩

theorem flatMap {α : Type} {f : α → List Token} (h : ∀ x, Avoids bad (f x)) (xs : List α) :
    Avoids bad (xs.flatMap f) := by
  induction xs with
  | nil => exact nil
  | cons x xs ih => exact (h x).append ih

theorem group {opening : Mark} (h : ¬ bad (.mark opening)) (closing : Mark) (inner : List Token)
    (hu : Avoids bad us) : Avoids bad (group opening closing inner ++ us) := by
  unfold Executable.group
  split
  · exact hu
  · exact cons h

end Avoids

/-! ## Lists and brackets -/

namespace Apart

variable {α : Type} {f : α → List Token} {bad : Token → Prop}

theorem mono {a : α} (h : Apart f bad a) {bad' : Token → Prop} (hMore : ∀ t, bad t → bad' t) :
    Apart f bad' a :=
  fun b rest rest' hRest hRest' => h b rest rest' (hRest.mono hMore) (hRest'.mono hMore)

theorem subtype {p : α → Prop} {a : { x // p x }} (h : Apart f bad a.1) :
    Apart (fun b : { x // p x } => f b.1) bad a := by
  intro b rest rest' hRest hRest' hEq
  obtain ⟨hSame, hRests⟩ := h b.1 rest rest' hRest hRest' hEq
  exact ⟨Subtype.ext hSame, hRests⟩

/-- A list ends where no item starts. -/
theorem list (start : Token → Prop) (hStart : ∀ x, ∃ t ts, f x = t :: ts ∧ start t)
    (hBad : ∀ t, start t → ¬ bad t) {xs : List α} (h : ∀ x ∈ xs, Apart f bad x) :
    Apart (List.flatMap f) (fun t => start t ∨ bad t) xs := by
  have hAvoids : ∀ (ys : List α) {rest}, Avoids (fun t => start t ∨ bad t) rest →
      Avoids bad (ys.flatMap f ++ rest) := by
    intro ys rest hRest
    refine (Avoids.flatMap (fun x => ?_) ys).append (hRest.mono fun _ => Or.inr)
    obtain ⟨t, ts, hEq, hFirst⟩ := hStart x
    exact hEq ▸ .cons (hBad t hFirst)
  have hNone : ∀ (y : α) {rest us}, Avoids (fun t => start t ∨ bad t) rest →
      rest ≠ f y ++ us := by
    intro y rest us hRest
    obtain ⟨t, ts, hEq, hFirst⟩ := hStart y
    exact hEq ▸ hRest.ne (.inl hFirst)
  induction xs with
  | nil =>
    intro ys rest rest' hRest hRest' hEq
    cases ys with
    | nil => exact ⟨rfl, hEq⟩
    | cons y ys =>
      rw [List.flatMap_nil, List.nil_append, List.flatMap_cons, List.append_assoc] at hEq
      exact absurd hEq (hNone y hRest)
  | cons x xs ih =>
    intro ys rest rest' hRest hRest' hEq
    cases ys with
    | nil =>
      rw [List.flatMap_nil, List.nil_append, List.flatMap_cons, List.append_assoc] at hEq
      exact absurd hEq.symm (hNone x hRest')
    | cons y ys =>
      rw [List.flatMap_cons, List.flatMap_cons, List.append_assoc, List.append_assoc] at hEq
      obtain ⟨rfl, hTails⟩ := h x List.mem_cons_self y _ _ (hAvoids xs hRest) (hAvoids ys hRest') hEq
      obtain ⟨rfl, hRests⟩ :=
        ih (fun x hx => h x (List.mem_cons_of_mem _ hx)) ys _ _ hRest hRest' hTails
      exact ⟨rfl, hRests⟩

/-- A part that may be left out is there if a token stands that starts one. -/
theorem optional {g : Option α → List Token} {start : Token → Prop} (hNone : g none = [])
    (hStart : ∀ x, ∃ t ts, g (some x) = t :: ts ∧ start t)
    (h : ∀ x, Apart (fun x => g (some x)) start x) (x? : Option α) : Apart g start x? := by
  intro y? rest rest' hRest hRest' hEq
  cases x? with
  | none =>
    cases y? with
    | none =>
      rw [hNone] at hEq
      exact ⟨rfl, hEq⟩
    | some y =>
      obtain ⟨t, ts, hTokens, hFirst⟩ := hStart y
      rw [hNone, hTokens] at hEq
      exact absurd hEq (hRest.ne hFirst)
  | some x =>
    cases y? with
    | none =>
      obtain ⟨t, ts, hTokens, hFirst⟩ := hStart x
      rw [hNone, hTokens] at hEq
      exact absurd hEq.symm (hRest'.ne hFirst)
    | some y =>
      obtain ⟨rfl, hRests⟩ := h x y _ _ hRest hRest' hEq
      exact ⟨rfl, hRests⟩

variable {opening closing : Mark}

/-- What stands between two brackets ends at the second one. -/
theorem enclosed {a : α} (h : Apart f bad a) (hClose : ¬ bad (.mark closing)) {b : α}
    {rest rest' : List Token}
    (hEq : enclosed opening closing (f a) ++ rest = enclosed opening closing (f b) ++ rest') :
    a = b ∧ rest = rest' := by
  simp only [Executable.enclosed, List.cons_append, List.append_assoc, List.nil_append,
    List.cons.injEq, true_and] at hEq
  obtain ⟨hSame, hRests⟩ := h b _ _ (.cons hClose) (.cons hClose) hEq
  exact ⟨hSame, (List.cons.inj hRests).2⟩

/-- So does what may be left out with its brackets. -/
theorem group {a : α} (h : Apart f bad a) (hClose : ¬ bad (.mark closing)) :
    Apart (fun a => group opening closing (f a)) (among [opening]) a := by
  have hOpen : among [opening] (.mark opening) := ⟨opening, .head _, rfl⟩
  intro b rest rest' hRest hRest' hEq
  simp only [Executable.group] at hEq
  split at hEq
  · rename_i hNone
    split at hEq
    · rename_i hNone'
      have hSame : f a ++ [] = f b ++ [] := by
        rw [List.isEmpty_iff.mp hNone, List.isEmpty_iff.mp hNone']
      exact ⟨(h b [] [] .nil .nil hSame).1, hEq⟩
    · exact absurd hEq (hRest.ne hOpen)
  · split at hEq
    · exact absurd hEq.symm (hRest'.ne hOpen)
    · exact h.enclosed hClose hEq

end Apart

/-! ## Values -/

/-- Values and fields of a value go on with nothing that comes after them. -/
abbrev nothing (_ : Token) : Prop := False

theorem Value.tokens_start (v : Value) :
    ∃ t ts, v.tokens = t :: ts ∧ t ≠ .mark .closeSquare := by
  cases v <;> exact ⟨_, _, rfl, by simp⟩

theorem Value.itemTokens_eq (vs : List Value) : Value.itemTokens vs = vs.flatMap Value.tokens := by
  induction vs with
  | nil => rfl
  | cons v vs ih => rw [Value.itemTokens, List.flatMap_cons, ih]

/-- The tokens of a name with its value. -/
def entryTokens (entry : String × Value) : List Token :=
  .name entry.1 :: .mark .colon :: entry.2.tokens

theorem Value.fieldTokens_eq (fs : List (String × Value)) :
    Value.fieldTokens fs = fs.flatMap entryTokens := by
  induction fs with
  | nil => rfl
  | cons f fs ih => rw [Value.fieldTokens, List.flatMap_cons, ih, entryTokens]

/-- A list of values is apart if its items are. -/
theorem Apart.items {vs : List Value} (h : ∀ v ∈ vs, Apart Value.tokens nothing v) :
    Apart Value.itemTokens (fun t => t ≠ .mark .closeSquare ∨ nothing t) vs := by
  rw [funext Value.itemTokens_eq]
  exact Apart.list _ Value.tokens_start (fun _ _ => not_false) h

/-- So are names with their values. -/
theorem Apart.entries {fs : List (String × Value)}
    (h : ∀ f ∈ fs, Apart Value.tokens nothing f.2) :
    Apart Value.fieldTokens (fun t => (∃ n, t = .name n) ∨ nothing t) fs := by
  rw [funext Value.fieldTokens_eq]
  refine Apart.list _ (fun f => ⟨_, _, rfl, f.1, rfl⟩) (fun _ _ => not_false) fun f hf => ?_
  intro g rest rest' hRest hRest' hEq
  simp only [List.cons_append, List.cons.injEq, Token.name.injEq, true_and] at hEq
  obtain ⟨hName, hEq⟩ := hEq
  obtain ⟨hValue, hRests⟩ := h f hf g.2 _ _ hRest hRest' hEq
  exact ⟨Prod.ext hName hValue, hRests⟩

mutual

theorem Value.apart : ∀ v : Value, Apart Value.tokens nothing v
  | .list vs => by
    intro b rest rest' _ _ hEq
    cases b with
    | list ws =>
      obtain ⟨rfl, hRests⟩ := (Apart.items (Value.items_apart vs)).enclosed (by simp) hEq
      exact ⟨rfl, hRests⟩
    | _ => simp [Value.tokens, enclosed] at hEq
  | .object fs => by
    intro b rest rest' _ _ hEq
    cases b with
    | object gs =>
      obtain ⟨rfl, hRests⟩ := (Apart.entries (Value.fields_apart fs)).enclosed (by simp) hEq
      exact ⟨rfl, hRests⟩
    | _ => simp [Value.tokens, enclosed] at hEq
  | .variable n | .int n | .float n | .string n | .block n | .word n => by
    intro b rest rest' _ _ hEq
    cases b <;> simp_all [Value.tokens, enclosed]

theorem Value.items_apart : ∀ vs : List Value, ∀ v ∈ vs, Apart Value.tokens nothing v
  | [] => List.forall_mem_nil _
  | v :: vs => List.forall_mem_cons.mpr ⟨Value.apart v, Value.items_apart vs⟩

theorem Value.fields_apart : ∀ fs : List (String × Value), ∀ f ∈ fs,
    Apart Value.tokens nothing f.2
  | [] => List.forall_mem_nil _
  | (_, v) :: fs => List.forall_mem_cons.mpr ⟨Value.apart v, Value.fields_apart fs⟩

end

/-! ## Arguments and directives -/

theorem Arguments.apart (as : Arguments) : Apart Arguments.tokens (among [.openRound]) as :=
  (Apart.entries (Value.fields_apart as)).group (by simp)

theorem Directive.apart (d : Directive) : Apart Directive.tokens (among [.openRound]) d := by
  intro b rest rest' hRest hRest' hEq
  simp only [Directive.tokens, List.cons_append, List.cons.injEq, Token.name.injEq, true_and] at hEq
  obtain ⟨hName, hEq⟩ := hEq
  obtain ⟨hArguments, hRests⟩ := Arguments.apart d.arguments _ _ _ hRest hRest' hEq
  cases d
  cases b
  exact ⟨by simp_all, hRests⟩

/-- Directives end where neither a directive nor the arguments of one start. -/
theorem Apart.directives {α : Type} {f : α → Directive} {ds : List α}
    (h : ∀ d ∈ ds, Apart (fun d => (f d).tokens) (among [.openRound]) d) :
    Apart (List.flatMap fun d => (f d).tokens) (among [.atSign, .openRound]) ds := by
  refine (Apart.list (· = .mark .atSign) (fun d => ⟨_, _, rfl, rfl⟩) ?_ h).mono ?_
  · rintro t rfl
    simp [among]
  · simp [among]

theorem directives_apart (ds : List Directive) :
    Apart (List.flatMap Directive.tokens) (among [.atSign, .openRound]) ds :=
  Apart.directives (f := id) fun d _ => d.apart

theorem Avoids.arguments {bad : Token → Prop} (h : ¬ bad (.mark .openRound)) (as : Arguments)
    {rest : List Token} (hRest : Avoids bad rest) : Avoids bad (as.tokens ++ rest) :=
  .group h _ _ hRest

theorem Avoids.directives {α : Type} {f : α → Directive} {bad : Token → Prop}
    (h : ¬ bad (.mark .atSign)) (ds : List α) {rest : List Token} (hRest : Avoids bad rest) :
    Avoids bad ((ds.flatMap fun d => (f d).tokens) ++ rest) :=
  (Avoids.flatMap (fun _ => .cons h) ds).append hRest

/-! ## Selections -/

/-- A name with the name before its colon, if there is one. -/
theorem named_apart (x : Option String × String) :
    Apart (fun x : Option String × String => aliasTokens x.1 ++ [.name x.2]) (among [.colon]) x := by
  have hColon : among [.colon] (.mark .colon) := ⟨.colon, .head _, rfl⟩
  obtain ⟨as?, name⟩ := x
  rintro ⟨as?', name'⟩ rest rest' hRest hRest' hEq
  cases as? <;> cases as?' <;>
    simp only [aliasTokens, List.nil_append, List.cons_append, List.cons.injEq, Token.name.injEq,
      true_and] at hEq
  · obtain ⟨rfl, hRests⟩ := hEq
    exact ⟨rfl, hRests⟩
  · exact absurd hEq.2 (hRest.ne hColon)
  · exact absurd hEq.2.symm (hRest'.ne hColon)
  · obtain ⟨rfl, rfl, hRests⟩ := hEq
    exact ⟨rfl, hRests⟩

/-- A type condition is there if its word is. -/
theorem condition_apart (type? : Option String) :
    Apart conditionTokens (fun t => ∃ n, t = .name n) type? := by
  refine .optional rfl (fun _ => ⟨_, _, rfl, _, rfl⟩) (fun type => ?_) type?
  intro type' rest rest' _ _ hEq
  simpa [conditionTokens] using hEq

/-- The punctuators that a selection goes on with. -/
abbrev follows : List Mark := [.colon, .openRound, .atSign, .openCurly]

theorem Selection.tokens_start (s : Selection) :
    ∃ t ts, s.tokens = t :: ts ∧ ((∃ n, t = .name n) ∨ t = .mark .spread) := by
  cases s with
  | field as? =>
    cases as? with
    | none => exact ⟨_, _, rfl, .inl ⟨_, rfl⟩⟩
    | some => exact ⟨_, _, rfl, .inl ⟨_, rfl⟩⟩
  | spread => exact ⟨_, _, rfl, .inr rfl⟩
  | inline => exact ⟨_, _, rfl, .inr rfl⟩

theorem Selection.listTokens_eq (ss : List Selection) :
    Selection.listTokens ss = ss.flatMap Selection.tokens := by
  induction ss with
  | nil => rfl
  | cons s ss ih => rw [Selection.listTokens, List.flatMap_cons, ih]

/-- A list of selections is apart if its items are. -/
theorem Apart.selections {ss : List Selection}
    (h : ∀ s ∈ ss, Apart Selection.tokens (among follows) s) :
    Apart Selection.listTokens (fun t => ((∃ n, t = .name n) ∨ t = .mark .spread) ∨ among follows t)
      ss := by
  rw [funext Selection.listTokens_eq]
  refine Apart.list _ Selection.tokens_start ?_ h
  rintro t (⟨n, rfl⟩ | rfl) <;> simp [among]

/-- The closing bracket neither starts a selection nor goes on with one. -/
theorem not_closeCurly : ¬ (((∃ n, Token.mark .closeCurly = .name n) ∨
    Token.mark .closeCurly = .mark .spread) ∨ among follows (.mark .closeCurly)) := by
  simp [among]

theorem field_apart {as? : Option String} {name : String} {arguments : Arguments}
    {directives : List Directive} {selections : List Selection}
    (h : ∀ s ∈ selections, Apart Selection.tokens (among follows) s) :
    Apart Selection.tokens (among follows) (.field as? name arguments directives selections) := by
  -- What comes after the arguments starts with none of the tokens that arguments start with, and so on.
  have hSet : ∀ {ms : List Mark} (ts : List Token) {rest : List Token}, .openCurly ∉ ms →
      ms ⊆ follows → Avoids (among follows) rest →
      Avoids (among ms) (group .openCurly .closeCurly ts ++ rest) :=
    fun ts _ hCurly hLess hRest => .group (by simpa [among] using hCurly) _ ts (hRest.among hLess)
  have hDirectives : ∀ {ms : List Mark} (ds : List Directive) (ts : List Token) {rest : List Token},
      .openCurly ∉ ms → .atSign ∉ ms → ms ⊆ follows → Avoids (among follows) rest →
      Avoids (among ms) (ds.flatMap Directive.tokens ++
        (group .openCurly .closeCurly ts ++ rest)) :=
    fun ds ts _ hCurly hAt hLess hRest =>
      .directives (by simpa [among] using hAt) ds (hSet ts hCurly hLess hRest)
  have hArguments : ∀ (as : Arguments) (ds : List Directive) (ts : List Token) {rest : List Token},
      Avoids (among follows) rest → Avoids (among [.colon]) (as.tokens ++
        (ds.flatMap Directive.tokens ++ (group .openCurly .closeCurly ts ++ rest))) :=
    fun as ds ts _ hRest => .arguments (by simp [among]) as
      (hDirectives ds ts (by simp) (by simp) (by simp) hRest)
  intro b rest rest' hRest hRest' hEq
  cases b with
  | field as?' name' arguments' directives' selections' =>
    simp only [Selection.tokens, List.append_assoc, List.cons_append] at hEq
    obtain ⟨hNamed, hArgued⟩ := named_apart (as?, name) (as?', name') _ _
      (hArguments arguments directives _ hRest) (hArguments arguments' directives' _ hRest')
      (by simpa using hEq)
    obtain ⟨rfl, rfl⟩ := Prod.mk.inj hNamed
    obtain ⟨rfl, hDirected⟩ := Arguments.apart arguments _ _ _
      (hDirectives directives _ (by simp) (by simp) (by simp) hRest)
      (hDirectives directives' _ (by simp) (by simp) (by simp) hRest') hArgued
    obtain ⟨rfl, hSelected⟩ := directives_apart directives _ _ _
      (hSet _ (by simp) (by simp) hRest) (hSet _ (by simp) (by simp) hRest') hDirected
    obtain ⟨rfl, hRests⟩ := (Apart.selections h).group not_closeCurly _ _ _
      (hRest.among (by simp)) (hRest'.among (by simp)) hSelected
    exact ⟨rfl, hRests⟩
  | _ => cases as? <;> simp [Selection.tokens, aliasTokens] at hEq

/-- Directives and a set of selections start with one of two punctuators. -/
theorem Avoids.directed {bad : Token → Prop} (hAt : ¬ bad (.mark .atSign))
    (hCurly : ¬ bad (.mark .openCurly)) (ds : List Directive) (ts rest : List Token) :
    Avoids bad (ds.flatMap Directive.tokens ++ (enclosed .openCurly .closeCurly ts ++ rest)) :=
  .directives hAt ds (.cons hCurly)

/-- The name of a fragment is not the word of a type condition. -/
theorem spread_ne_inline {fragment : FragmentName} {type? : Option String}
    {ds ds' : List Directive} {first : Selection} {others : List Selection}
    {rest rest' : List Token} :
    (Selection.spread fragment ds).tokens ++ rest ≠
      (Selection.inline type? ds' first others).tokens ++ rest' := by
  intro hEq
  simp only [Selection.tokens, List.append_assoc, List.cons_append, List.cons.injEq, true_and] at hEq
  cases type? with
  | none =>
    have hNames : Avoids (fun t => ∃ n, t = .name n) _ := .directed (by simp) (by simp) ds'
      (first.tokens ++ Selection.listTokens others) rest'
    exact hNames.ne ⟨_, rfl⟩ hEq.symm
  | some type =>
    simp only [conditionTokens, List.cons_append, List.cons.injEq, Token.name.injEq] at hEq
    exact fragment.2 hEq.1

theorem spread_apart (fragment : FragmentName) (directives : List Directive) :
    Apart Selection.tokens (among follows) (.spread fragment directives) := by
  intro b rest rest' hRest hRest' hEq
  cases b with
  | field as? => cases as? <;> simp [Selection.tokens, aliasTokens] at hEq
  | spread fragment' directives' =>
    simp only [Selection.tokens, List.cons_append, List.cons.injEq, Token.name.injEq, true_and] at hEq
    obtain ⟨hName, hDirected⟩ := hEq
    obtain ⟨rfl, hRests⟩ := directives_apart directives _ _ _
      (hRest.among (by simp)) (hRest'.among (by simp)) hDirected
    exact ⟨by rw [Subtype.ext hName], hRests⟩
  | inline => exact absurd hEq spread_ne_inline

theorem inline_apart {type? : Option String} {directives : List Directive} {first : Selection}
    {others : List Selection} (h : ∀ s ∈ first :: others, Apart Selection.tokens (among follows) s) :
    Apart Selection.tokens (among follows) (.inline type? directives first others) := by
  intro b rest rest' hRest hRest' hEq
  cases b with
  | field as? => cases as? <;> simp [Selection.tokens, aliasTokens] at hEq
  | spread => exact absurd hEq.symm spread_ne_inline
  | inline type?' directives' first' others' =>
    simp only [Selection.tokens, List.append_assoc, List.cons_append, List.cons.injEq,
      true_and] at hEq
    obtain ⟨rfl, hDirected⟩ := condition_apart type? _ _ _
      (.directed (by simp) (by simp) _ _ _) (.directed (by simp) (by simp) _ _ _) hEq
    obtain ⟨rfl, hSelected⟩ := directives_apart directives _ _ _
      (.cons (by simp [among])) (.cons (by simp [among])) hDirected
    obtain ⟨hSet, hRests⟩ :=
      (Apart.selections h).enclosed not_closeCurly (b := first' :: others') hSelected
    obtain ⟨rfl, rfl⟩ := List.cons.inj hSet
    exact ⟨rfl, hRests⟩

mutual

theorem Selection.apart : ∀ s : Selection, Apart Selection.tokens (among follows) s
  | .field _ _ _ _ selections => field_apart (Selection.list_apart selections)
  | .spread fragment directives => spread_apart fragment directives
  | .inline _ _ first others =>
    inline_apart (List.forall_mem_cons.mpr ⟨Selection.apart first, Selection.list_apart others⟩)

theorem Selection.list_apart : ∀ ss : List Selection,
    ∀ s ∈ ss, Apart Selection.tokens (among follows) s
  | [] => List.forall_mem_nil _
  | s :: ss => List.forall_mem_cons.mpr ⟨Selection.apart s, Selection.list_apart ss⟩

end

/-- A set of selections ends with its closing bracket. -/
theorem SelectionSet.apart (ss : SelectionSet) : Apart SelectionSet.tokens nothing ss := by
  intro b rest rest' _ _ hEq
  obtain ⟨hSame, hRests⟩ := (Apart.selections fun s _ => s.apart).enclosed not_closeCurly hEq
  exact ⟨Subtype.ext hSame, hRests⟩

/-! ## Variables -/

theorem required_apart (required : Bool) : Apart requiredTokens (among [.bang]) required := by
  have hBang : among [.bang] (.mark .bang) := ⟨.bang, .head _, rfl⟩
  intro b rest rest' hRest hRest' hEq
  cases required <;> cases b <;> simp [requiredTokens] at hEq
  · exact ⟨rfl, hEq⟩
  · exact absurd hEq (hRest.ne hBang)
  · exact absurd hEq.symm (hRest'.ne hBang)
  · exact ⟨rfl, hEq⟩

theorem Reference.apart (r : Reference) : Apart Reference.tokens (among [.bang]) r := by
  induction r with
  | named name required =>
    intro b rest rest' hRest hRest' hEq
    cases b with
    | named name' required' =>
      simp only [Reference.tokens, List.cons_append, List.cons.injEq, Token.name.injEq] at hEq
      obtain ⟨rfl, hRequired⟩ := hEq
      obtain ⟨rfl, hRests⟩ := required_apart required _ _ _ hRest hRest' hRequired
      exact ⟨rfl, hRests⟩
    | list => simp [Reference.tokens, enclosed] at hEq
  | list item required ih =>
    intro b rest rest' hRest hRest' hEq
    cases b with
    | named => simp [Reference.tokens, enclosed] at hEq
    | list item' required' =>
      simp only [Reference.tokens, List.append_assoc] at hEq
      obtain ⟨rfl, hRequired⟩ := ih.enclosed (by simp [among]) hEq
      obtain ⟨rfl, hRests⟩ := required_apart required _ _ _ hRest hRest' hRequired
      exact ⟨rfl, hRests⟩

theorem default_apart (default? : Option { v : Value // v.isConstant = true }) :
    Apart defaultTokens (among [.equals]) default? := by
  refine .optional rfl (fun _ => ⟨_, _, rfl, .equals, .head _, rfl⟩) (fun v => ?_) default?
  intro w rest rest' _ _ hEq
  exact v.1.apart.subtype w _ _ (fun _ _ => id) (fun _ _ => id) (List.cons.inj hEq).2

/-- The punctuators that a variable goes on with. -/
abbrev Variable.follows : List Mark := [.bang, .equals, .atSign, .openRound]

theorem Variable.apart (v : Variable) : Apart Variable.tokens (among Variable.follows) v := by
  have hDirectives : ∀ {ms : List Mark} (w : Variable) {rest : List Token}, .atSign ∉ ms →
      ms ⊆ Variable.follows → Avoids (among Variable.follows) rest →
      Avoids (among ms) ((w.directives.flatMap fun d => d.1.tokens) ++ rest) :=
    fun w _ hAt hLess hRest =>
      .directives (by simpa [among] using hAt) w.directives (hRest.among hLess)
  have hDefault : ∀ (w : Variable) {rest : List Token}, Avoids (among Variable.follows) rest →
      Avoids (among [.bang])
        (defaultTokens w.default? ++ ((w.directives.flatMap fun d => d.1.tokens) ++ rest)) := by
    intro w rest hRest
    cases w.default? with
    | none => exact hDirectives w (by simp) (by simp) hRest
    | some => exact .cons (by simp [among])
  intro w rest rest' hRest hRest' hEq
  simp only [Variable.tokens, List.append_assoc, List.cons_append, List.cons.injEq,
    Token.name.injEq, true_and] at hEq
  obtain ⟨hName, hTyped⟩ := hEq
  obtain ⟨hType, hDefaulted⟩ := v.type.apart _ _ _ (hDefault v hRest) (hDefault w hRest') hTyped
  obtain ⟨hValue, hDirected⟩ := default_apart v.default? _ _ _
    (hDirectives v (by simp) (by simp) hRest) (hDirectives w (by simp) (by simp) hRest') hDefaulted
  obtain ⟨hDirectives, hRests⟩ := Apart.directives (fun d _ => d.1.apart.subtype) _ _ _
    (hRest.among (by simp)) (hRest'.among (by simp)) hDirected
  cases v
  cases w
  exact ⟨by simp_all, hRests⟩

/-- Variables stand between brackets, if there are any. -/
theorem variables_apart (vs : List Variable) :
    Apart (fun vs : List Variable => group .openRound .closeRound (vs.flatMap Variable.tokens))
      (among [.openRound]) vs := by
  refine (Apart.list (· = .mark .dollar) (fun v => ⟨_, _, rfl, rfl⟩) ?_
    fun v _ => v.apart).group (by simp [among])
  rintro t rfl
  simp [among]

/-! ## Definitions -/

theorem Keyword.text_inj {k k' : Keyword} (h : k.text = k'.text) : k = k' := by
  cases k <;> cases k' <;> first | rfl | simp [Keyword.text] at h

theorem Keyword.text_ne (k : Keyword) : k.text ≠ "fragment" := by
  cases k <;> simp [Keyword.text]

/-- A name that may be left out. -/
theorem name_apart (name? : Option String) :
    Apart (fun name? : Option String => (name?.map Token.name).toList) (fun t => ∃ n, t = .name n)
      name? := by
  refine .optional rfl (fun _ => ⟨_, _, rfl, _, rfl⟩) (fun name => ?_) name?
  intro name' rest rest' _ _ hEq
  simpa using hEq

theorem Definition.apart (d : Definition) : Apart Definition.tokens nothing d := by
  intro b rest rest' _ _ hEq
  cases d with
  | operation keyword name? parameters directives selections =>
    cases b with
    | operation keyword' name?' parameters' directives' selections' =>
      simp only [Definition.tokens, List.append_assoc, List.cons_append, List.cons.injEq,
        Token.name.injEq] at hEq
      obtain ⟨hKeyword, hNamed⟩ := hEq
      obtain rfl := Keyword.text_inj hKeyword
      obtain ⟨rfl, hVariables⟩ := name_apart name? _ _ _
        (.group (by simp) _ _ (.directed (by simp) (by simp) _ _ _))
        (.group (by simp) _ _ (.directed (by simp) (by simp) _ _ _)) hNamed
      obtain ⟨rfl, hDirected⟩ := variables_apart parameters _ _ _
        (.directed (by simp [among]) (by simp [among]) _ _ _)
        (.directed (by simp [among]) (by simp [among]) _ _ _) hVariables
      obtain ⟨rfl, hSelected⟩ := directives_apart directives _ _ _
        (.cons (by simp [among])) (.cons (by simp [among])) hDirected
      obtain ⟨rfl, hRests⟩ :=
        selections.apart selections' _ _ (fun _ _ => id) (fun _ _ => id) hSelected
      exact ⟨rfl, hRests⟩
    | query => simp [Definition.tokens, SelectionSet.tokens, enclosed] at hEq
    | fragment => simp [Definition.tokens, keyword.text_ne] at hEq
  | query selections =>
    cases b with
    | query selections' =>
      obtain ⟨rfl, hRests⟩ := selections.apart selections' _ _ (fun _ _ => id) (fun _ _ => id) hEq
      exact ⟨rfl, hRests⟩
    | _ => simp [Definition.tokens, SelectionSet.tokens, enclosed] at hEq
  | fragment name type directives selections =>
    cases b with
    | operation keyword => simp [Definition.tokens, keyword.text_ne.symm] at hEq
    | query => simp [Definition.tokens, SelectionSet.tokens, enclosed] at hEq
    | fragment name' type' directives' selections' =>
      simp only [Definition.tokens, List.append_assoc, List.cons_append, List.cons.injEq,
        Token.name.injEq, true_and] at hEq
      obtain ⟨hName, rfl, hDirected⟩ := hEq
      obtain ⟨rfl, hSelected⟩ := directives_apart directives _ _ _
        (.cons (by simp [among])) (.cons (by simp [among])) hDirected
      obtain ⟨rfl, hRests⟩ :=
        selections.apart selections' _ _ (fun _ _ => id) (fun _ _ => id) hSelected
      exact ⟨by rw [Subtype.ext hName], hRests⟩

/-! ## Documents -/

theorem Definition.tokens_ne_nil (d : Definition) : d.tokens ≠ [] := by
  cases d <;> simp [Definition.tokens, SelectionSet.tokens, enclosed]

/-- The definitions at the start of a document are those whose tokens stand there. -/
theorem definitions_prefix {ds es : List Definition} {rest : List Token}
    (h : ds.flatMap Definition.tokens ++ rest = es.flatMap Definition.tokens) :
    ∃ later, es = ds ++ later ∧ rest = later.flatMap Definition.tokens := by
  induction ds generalizing es with
  | nil => exact ⟨es, rfl, h⟩
  | cons d ds ih =>
    rw [List.flatMap_cons, List.append_assoc] at h
    cases es with
    | nil => exact absurd (List.append_eq_nil_iff.mp h).1 d.tokens_ne_nil
    | cons e es =>
      obtain ⟨rfl, hRests⟩ := d.apart e _ _ (fun _ _ => id) (fun _ _ => id) h
      obtain ⟨later, rfl, hLater⟩ := ih hRests
      exact ⟨later, rfl, hLater⟩

theorem definitions_inj {ds es : List Definition}
    (h : ds.flatMap Definition.tokens = es.flatMap Definition.tokens) : ds = es := by
  obtain ⟨later, rfl, hLater⟩ := definitions_prefix ((List.append_nil _).trans h)
  cases later with
  | nil => simp
  | cons e later => exact absurd (List.append_eq_nil_iff.mp hLater.symm).1 e.tokens_ne_nil

/-- A text reads as one document at most. -/
theorem Reads.unique {text : String} {ds es : List Definition} (hd : Reads text ds)
    (he : Reads text es) : ds = es :=
  definitions_inj (Option.some.inj (hd.2.symm.trans he.2))

end EntityGraph.Executable
