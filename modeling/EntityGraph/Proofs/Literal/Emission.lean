import EntityGraph.Proofs.Literal.Dropping

/-!
# How parameters are emitted

The parameters of a statement are emitted one text after another.  A kind with positional parameters
looks its keys up, forgets those at the end that it did not find, and writes the others, null for
one that is absent.  A kind with options takes its leading keys out of a copy of the bag, writes
what is left of the copy as one mapping, and then drops the texts at the end that read like null.
The two ways to drop agree with the parameters of the signature, because only null is written as
null, and the validator's own bag stays as it is, because only the copy is changed.

* `Value.get?_reordered`: the value of a key does not depend on the order of the bag;
* `Emission.positional`, `Emission.options`: the texts of the parameters, one step after another;
* `Emission.positional_run`, `Emission.options_run`: they are those of the signature's parameters,
  and no bag that was there has changed;
* `Signature.SlotTexts`: one text for each key up to the last one that counts;
* `parameters_emitted`: what is emitted for a bag.
-/

namespace EntityGraph

open Handlers.Piece

/-! ## Bags by key -/

namespace Value

theorem beq_text {v : Value} {s : String} : (v == text s) = true ↔ v = text s := by
  constructor
  · intro h
    cases v with
    | text t => exact congrArg text (beq_iff_eq.mp (show (t == s) = true from h))
    | _ => cases h
  · rintro rfl
    exact (beq_self_eq_true s : (s == s) = true)

/-- The value of a key is the one in its entry, if no key comes twice. -/
theorem get?_eq_some_iff {es : List (Value × Value)} (h : (es.map (·.1)).Nodup) {key : String}
    {v : Value} : get? key es = some v ↔ (text key, v) ∈ es := by
  induction es with
  | nil => simp [get?]
  | cons e es ih =>
    obtain ⟨hFresh, hRest⟩ := List.nodup_cons.mp h
    rw [get?, List.mem_cons]
    by_cases hKey : e.1 = text key
    · rw [if_pos (beq_text.mpr hKey)]
      constructor
      · intro hFound
        exact .inl (Prod.ext hKey.symm (Option.some.inj hFound).symm)
      · rintro (rfl | hLater)
        · rfl
        · have hAgain : e.1 ∈ es.map (·.1) := by
            rw [hKey]
            exact List.mem_map_of_mem hLater
          exact absurd hAgain hFresh
    · rw [if_neg fun hSame => hKey (beq_text.mp hSame), ih hRest]
      refine ⟨.inr, ?_⟩
      rintro (rfl | hLater)
      · exact absurd rfl hKey
      · exact hLater

/-- A key has the same value after entries under other keys are added and all are reordered. -/
theorem get?_reordered {es fs extra : List (Value × Value)} {key : String}
    (hPerm : fs.Perm (es ++ extra)) (hDistinct : (fs.map (·.1)).Nodup)
    (hOther : ∀ e ∈ extra, e.1 ≠ text key) : get? key fs = get? key es := by
  have hAll : ((es ++ extra).map (·.1)).Nodup := (hPerm.map _).nodup_iff.mp hDistinct
  have hOwn : (es.map (·.1)).Nodup :=
    hAll.sublist ((List.sublist_append_left es extra).map _)
  apply Option.ext
  intro v
  rw [get?_eq_some_iff hDistinct, get?_eq_some_iff hOwn, hPerm.mem_iff, List.mem_append]
  refine or_iff_left ?_
  intro hExtra
  exact hOther _ hExtra rfl

end Value

namespace Signature

variable {key : String} {leading : List String} {bag : List (Value × Value)}

theorem mem_optionsOf {e : Value × Value} : e ∈ optionsOf leading bag ↔
    e ∈ bag ∧ ∀ key ∈ leading, e.1 ≠ .text key := by
  rw [optionsOf, List.mem_filter, Bool.not_eq_true', List.any_eq_false]
  simp only [Value.beq_text, ne_eq]

/-- A bag without the entry of a key. -/
def without (key : String) (bag : List (Value × Value)) : List (Value × Value) :=
  bag.filter fun e => !e.1 == .text key

theorem get?_without {other : String} (h : other ≠ key) :
    Value.get? other (without key bag) = Value.get? other bag := by
  induction bag with
  | nil => rfl
  | cons e es ih =>
    rw [without, List.filter_cons]
    split
    · rw [Value.get?, Value.get?]
      split
      · rfl
      · exact ih
    · rename_i hKey
      rw [Bool.not_eq_true, Bool.not_eq_false', Value.beq_text] at hKey
      have hOther : ¬(e.1 == .text other) = true := by
        rw [Value.beq_text, hKey]
        intro hSame
        exact h (Value.text.inj hSame).symm
      rw [Value.get?, if_neg hOther]
      exact ih

theorem optionsOf_without (bag : List (Value × Value)) :
    optionsOf leading (without key bag) = optionsOf (key :: leading) bag := by
  rw [optionsOf, without, List.filter_filter, optionsOf]
  congr 1
  funext e
  rw [List.any_cons, Bool.not_or, Bool.and_comm]

end Signature

/-! ## Emission -/

/-- The bags that there are, by their places. -/
abbrev Bags := List (List (Value × Value))

namespace Emission

open Signature

/-- A copy of a bag, at a place of its own. -/
def copy (place : Nat) : StateM Bags Nat :=
  modifyGet fun bags => (bags.length, bags ++ [bags.getD place []])

/-- The entries of a bag. -/
def entries (place : Nat) : StateM Bags (List (Value × Value)) :=
  return (← get).getD place []

/-- What a bag has under a key. -/
def lookUp (place : Nat) (key : String) : StateM Bags (Option Value) :=
  return Value.get? key (← entries place)

/-- What a bag has under a key, which is taken out of it. -/
def pop (place : Nat) (key : String) : StateM Bags (Option Value) :=
  modifyGet fun bags => (Value.get? key (bags.getD place []), bags.modify place (without key))

/-- The text of a parameter, the one of null if it was not found. -/
def slotText : Option Value → String
  | none => Literal.null
  | some v => v.literal

/-- The texts of positional parameters: those that are not found at the end are forgotten. -/
def positional (keys : List String) (own : Nat) : StateM Bags (List String) := do
  let place ← copy own
  let found ← keys.mapM (lookUp place)
  return (dropEnd Option.isNone found).map slotText

/-- The texts of leading parameters and of the rest of the bag: those at the end that read like null
are dropped. -/
def options (leading : List String) (own : Nat) : StateM Bags (List String) := do
  let place ← copy own
  let found ← leading.mapM (pop place)
  let rest ← entries place
  let texts := found.map slotText ++ if rest.isEmpty then [] else [(Value.map rest).literal]
  return dropEnd (· == Literal.null) texts

variable {bags : Bags} {bag : List (Value × Value)} {own : Nat}

/-- A step whose outcome is known, and what comes after it. -/
theorem bind_run {α β : Type} {x : StateM Bags α} {f : α → StateM Bags β} {bags bags' : Bags} {a : α}
    (h : x.run bags = (a, bags')) : (x >>= f).run bags = (f a).run bags' := by
  show (f (x.run bags).1).run (x.run bags).2 = _
  rw [h]

theorem copy_run (h : bags[own]? = some bag) :
    (copy own).run bags = (bags.length, bags ++ [bag]) := by
  show (bags.length, bags ++ [bags.getD own []]) = _
  rw [List.getD_eq_getElem?_getD, h, Option.getD_some]

theorem lookUp_run (key : String) :
    (lookUp bags.length key).run (bags ++ [bag]) = (Value.get? key bag, bags ++ [bag]) := by
  show (Value.get? key ((bags ++ [bag]).getD bags.length []), bags ++ [bag]) = _
  rw [List.getD_eq_getElem?_getD, List.getElem?_concat_length, Option.getD_some]

/-- Only the last bag is changed at its place. -/
theorem modify_last {α : Type} (xs : List α) (x : α) (f : α → α) :
    (xs ++ [x]).modify xs.length f = xs ++ [f x] := by
  induction xs with
  | nil => rfl
  | cons y ys ih =>
    rw [List.cons_append, List.length_cons, List.modify_succ_cons, ih, List.cons_append]

theorem pop_run (key : String) :
    (pop bags.length key).run (bags ++ [bag]) = (Value.get? key bag, bags ++ [without key bag]) := by
  show (Value.get? key ((bags ++ [bag]).getD bags.length []),
    (bags ++ [bag]).modify bags.length (without key)) = _
  rw [List.getD_eq_getElem?_getD, List.getElem?_concat_length, Option.getD_some, modify_last]

/-- Keys that are looked up leave every bag as it is. -/
theorem lookUps_run (keys : List String) :
    (keys.mapM (lookUp bags.length)).run (bags ++ [bag]) =
      (keys.map (Value.get? · bag), bags ++ [bag]) := by
  induction keys with
  | nil => rfl
  | cons key keys ih =>
    rw [List.mapM_cons, bind_run (lookUp_run key), bind_run ih]
    rfl

/-- Keys that are taken out of a copy leave it with the other entries. -/
theorem pops_run {leading : List String} (hDistinct : leading.Nodup) :
    (leading.mapM (pop bags.length)).run (bags ++ [bag]) =
      (leading.map (Value.get? · bag), bags ++ [optionsOf leading bag]) := by
  induction leading generalizing bag with
  | nil =>
    show ([], bags ++ [bag]) = ([], bags ++ [bag.filter fun _ => true])
    rw [List.filter_true]
  | cons key keys ih =>
    obtain ⟨hFresh, hRest⟩ := List.nodup_cons.mp hDistinct
    have hFound : keys.map (Value.get? · (without key bag)) = keys.map (Value.get? · bag) := by
      apply List.map_congr_left
      intro other hOther
      apply get?_without
      rintro rfl
      exact hFresh hOther
    rw [List.mapM_cons, bind_run (pop_run key), bind_run (ih hRest), hFound, optionsOf_without]
    rfl

theorem slotText_eq (found : Option Value) : slotText found = (found.getD .null).literal := by
  cases found <;> rfl

/-- The texts of positional parameters are those of the signature's, and a copy that nobody has
changed is all that is added. -/
theorem positional_run (h : bags[own]? = some bag) (keys : List String) :
    (positional keys own).run bags =
      (((Signature.positional keys).parameters bag).map Value.literal, bags ++ [bag]) := by
  have hTexts : (dropEnd Option.isNone (keys.map (Value.get? · bag))).map slotText =
      ((Signature.positional keys).parameters bag).map Value.literal := by
    rw [parameters, List.map_map]
    exact List.map_congr_left fun found _ => slotText_eq found
  rw [positional, bind_run (copy_run h), bind_run (lookUps_run keys), ← hTexts]
  rfl

/-- Texts that read like null are dropped from the end as the nulls are. -/
theorem dropEnd_texts (vs : List Value) :
    dropEnd (· == Literal.null) (vs.map Value.literal) =
      (dropEnd (· matches .null) vs).map Value.literal := by
  have hTest : (fun v : Value => v.literal == Literal.null) = (· matches .null) := by
    funext v
    rw [Bool.eq_iff_iff, beq_iff_eq, Value.literal_eq_null]
    cases v <;> simp
  rw [dropEnd_map, hTest]

/-- The texts of leading parameters and of the rest are those of the signature's parameters, and a
copy with the rest is all that is added. -/
theorem options_run (h : bags[own]? = some bag) {leading : List String}
    (hDistinct : leading.Nodup) :
    (options leading own).run bags =
      (((Signature.options leading).parameters bag).map Value.literal,
        bags ++ [optionsOf leading bag]) := by
  have hFirst : (leading.map (Value.get? · bag)).map slotText =
      (leading.map (valueAt bag)).map Value.literal := by
    rw [List.map_map, List.map_map]
    exact List.map_congr_left fun key _ => slotText_eq _
  have hRest : (bags ++ [optionsOf leading bag]).getD bags.length [] = optionsOf leading bag := by
    rw [List.getD_eq_getElem?_getD, List.getElem?_concat_length, Option.getD_some]
  have hRun : (options leading own).run bags =
      (dropEnd (· == Literal.null) ((leading.map (Value.get? · bag)).map slotText ++
        if ((bags ++ [optionsOf leading bag]).getD bags.length []).isEmpty then []
        else [(Value.map ((bags ++ [optionsOf leading bag]).getD bags.length [])).literal]),
        bags ++ [optionsOf leading bag]) := by
    rw [options, bind_run (copy_run h), bind_run (pops_run hDistinct)]
    rfl
  rw [hRun, hRest, hFirst, parameters_options]
  split
  · rw [List.append_nil]
    exact Prod.ext (dropEnd_texts _) rfl
  · rw [List.map_append, List.map_singleton, dropEnd_concat]
    rw [Bool.eq_false_iff, ne_eq, beq_iff_eq, Value.literal_eq_null]
    exact Value.noConfusion

end Emission

/-! ## What is emitted -/

namespace Signature

variable {bag : List (Value × Value)}

/-- One text for each key up to the last one that counts: the literal of its value, the one of null
where it is absent. -/
structure SlotTexts (counts : String → Prop) (bag : List (Value × Value)) (keys : List String)
    (texts : List String) : Prop where
  count : CountsTo counts keys texts.length
  each : ∀ (i : Nat) key, keys[i]? = some key → i < texts.length →
    texts[i]? = some (Emission.slotText (Value.get? key bag))

/-- A row of slots without its end has the texts up to the last slot that fails the test. -/
theorem slotTexts_dropEnd {α : Type} {p : α → Bool} {slot : String → α} {write : α → String}
    {counts : String → Prop} (keys : List String) (hCounts : ∀ key, p (slot key) = false ↔ counts key)
    (hWrite : ∀ key, write (slot key) = Emission.slotText (Value.get? key bag)) :
    SlotTexts counts bag keys ((dropEnd p (keys.map slot)).map write) := by
  have hCount := (countsTo_dropEnd p (keys.map slot)).of_map
  constructor
  · rw [List.length_map]
    simpa only [hCounts] using hCount
  · intro i key hKey hi
    rw [List.length_map] at hi
    rw [List.getElem?_map, getElem?_dropEnd hi, List.getElem?_map, hKey, Option.map_some,
      Option.map_some, hWrite]

theorem slotTexts_positional (keys : List String) :
    SlotTexts (fun key => (Value.get? key bag).isSome) bag keys
      (((positional keys).parameters bag).map Value.literal) := by
  rw [parameters, List.map_map]
  refine slotTexts_dropEnd keys (fun key => ?_) fun key => (Emission.slotText_eq _).symm
  cases Value.get? key bag <;> simp

theorem slotTexts_leading {leading : List String} (h : optionsOf leading bag = []) :
    SlotTexts (fun key => valueAt bag key ≠ .null) bag leading
      (((options leading).parameters bag).map Value.literal) := by
  rw [parameters_options, h, List.isEmpty_nil, if_pos rfl]
  refine slotTexts_dropEnd leading (fun key => ?_) fun key => (Emission.slotText_eq _).symm
  cases valueAt bag key <;> simp

/-- The leading keys of a signature with options. -/
def leadingKeys : Signature → List String
  | options leading => leading
  | _ => []

theorem leadingKeys_nodup {kind : String} {signature : Signature}
    (h : signature? kind = some signature) : signature.leadingKeys.Nodup := by
  have hTable : ∀ e ∈ table, e.2.leadingKeys.Nodup := by decide
  obtain ⟨e, hFound, rfl⟩ := Option.map_eq_some_iff.mp h
  exact hTable e (List.mem_of_find?_eq_some hFound)

end Signature

section

variable [Limits] {v w : Validator} {signature : Signature}

/-- A validator is emitted with these texts for its parameters, unless a value in them cannot be
written. -/
structure Validator.Emits (v : Validator) (target field : String) (texts : List String) : Prop where
  written : v.hasText = true → ∃ s, statement target field v = .ok s ∧
    s.parameters.map Value.literal = texts ∧
    s.text = v.kind ++ "(" ++ ", ".intercalate texts ++ ")(" ++ Literal.quoted target ++ ", " ++
      Literal.quoted field ++ ")"
  refused : ∀ flaw : Value.Flaw, v.flaw? = some flaw →
    statement target field v = .error flaw.failure

theorem Validator.emits_of_signature (hSignature : signature? v.kind = some signature)
    (target field : String) :
    v.Emits target field ((signature.parameters v.bag).map Value.literal) := by
  have hStatement := statement_known hSignature target field
  constructor
  · intro hText
    rw [Option.isNone_iff_eq_none.mp hText] at hStatement
    exact ⟨_, hStatement, rfl, rfl⟩
  · intro flaw hFlaw
    rwa [hFlaw] at hStatement

/-- Two validators of a positional kind whose bags agree on its keys have one statement. -/
theorem statement_eq_of_bags {keys : List String}
    (hSignature : signature? v.kind = some (.positional keys)) (hKind : w.kind = v.kind)
    (hBags : ∀ key ∈ keys, Value.get? key w.bag = Value.get? key v.bag) (target field : String) :
    statement target field w = statement target field v := by
  have hParameters : (Signature.positional keys).parameters w.bag =
      (Signature.positional keys).parameters v.bag := by
    rw [Signature.parameters, Signature.parameters, List.map_congr_left hBags]
  have hFlaw : w.flaw? = v.flaw? := by
    simp only [Validator.flaw?, hKind, hSignature, Option.bind_some, Signature.written, hParameters]
  rw [statement_known hSignature, statement_known (hKind ▸ hSignature), hFlaw, hKind, hParameters]

end

/-- The parameters that a validator emits.  A positional kind emits one for each key up to the last
one that is in the bag, and other entries or another order of the bag change nothing.  A kind with
options emits all its leading parameters and then the other entries as one mapping, in their order,
or, if there are no other entries, the leading parameters up to the last one that is not null.  In
both cases no bag is changed, the validator's own included; there is a working copy more.  Nothing
is emitted if a value in the parameters cannot be written, because a number in it is too long or it
has more levels than there is room for. -/
theorem parameters_emitted [Limits] (v : Validator) (target field : String) {bags : Bags} {own : Nat}
    (hOwn : bags[own]? = some v.bag) :
    (∀ keys, signature? v.kind = some (.positional keys) →
      ∃ texts copy, (Emission.positional keys own).run bags = (texts, bags ++ [copy]) ∧
        Signature.SlotTexts (fun key => (Value.get? key v.bag).isSome) v.bag keys texts ∧
        v.Emits target field texts ∧
        ∀ (w : Validator) (extra : List (Value × Value)), w.kind = v.kind →
          w.bag.Perm (v.bag ++ extra) → (w.bag.map (·.1)).Nodup →
          (∀ e ∈ extra, ∀ key ∈ keys, e.1 ≠ .text key) →
            statement target field w = statement target field v) ∧
    ∀ leading, signature? v.kind = some (.options leading) →
      ∃ texts rest, (Emission.options leading own).run bags = (texts, bags ++ [rest]) ∧
        rest.Sublist v.bag ∧ (∀ e, e ∈ rest ↔ e ∈ v.bag ∧ ∀ key ∈ leading, e.1 ≠ .text key) ∧
        (rest ≠ [] → texts = leading.map (fun key => Emission.slotText (Value.get? key v.bag)) ++
          [(Value.map rest).literal]) ∧
        (rest = [] →
          Signature.SlotTexts (fun key => Signature.valueAt v.bag key ≠ .null) v.bag leading texts) ∧
        v.Emits target field texts := by
  constructor
  · intro keys hSignature
    refine ⟨_, _, Emission.positional_run hOwn keys, Signature.slotTexts_positional keys,
      v.emits_of_signature hSignature target field, ?_⟩
    intro w extra hKind hPerm hDistinct hOther
    apply statement_eq_of_bags hSignature hKind
    intro key hKey
    exact Value.get?_reordered hPerm hDistinct fun e he => hOther e he key hKey
  · intro leading hSignature
    refine ⟨_, _, Emission.options_run hOwn (Signature.leadingKeys_nodup hSignature),
      List.filter_sublist, fun e => Signature.mem_optionsOf, ?_, Signature.slotTexts_leading,
      v.emits_of_signature hSignature target field⟩
    intro hRest
    rw [Signature.parameters_options, if_neg (by simpa using hRest), List.map_append, List.map_map,
      List.map_singleton]
    congr 1
    exact List.map_congr_left fun key _ => (Emission.slotText_eq _).symm

/-- A length of at least a number that no text is long enough for. -/
def endlessLength : Validator :=
  ⟨"Length", [(.text "min", .int (Nat.pow 10 Value.mostDigits))]⟩

/-- A bound on a length, after an entry under a key that the kind does not know. -/
def steppedLength : Validator := ⟨"Length", [(.text "step", .int 2), (.text "max", .int 9)]⟩

/-- A telephone number of any country, checked strictly. -/
def strictPhone : Validator := ⟨"IsMobilePhone", [(.text "strict_mode", .bool true)]⟩

/-- The endless length has a minimum, and yet nothing is emitted for it.  The stepped length is
emitted as the one without the other entry, and the telephone number with null for its country. -/
theorem endlessLength_emits_nothing :
    ((Value.get? "min" endlessLength.bag).isSome ∧
      statement "BookCreateInput" "pages" endlessLength = .error .numberTooLong) ∧
    statement "BookCreateInput" "pages" steppedLength =
      statement "BookCreateInput" "pages" boundedLength ∧
    strictPhone.Emits "BookCreateInput" "phone" ["None", "\x7b'strict_mode': True\x7d"] := by
  have hEndless : ([endlessLength.bag] : Bags)[0]? = some endlessLength.bag := rfl
  have hBounded : ([boundedLength.bag] : Bags)[0]? = some boundedLength.bag := rfl
  have hPhone : ([strictPhone.bag] : Bags)[0]? = some strictPhone.bag := rfl
  obtain ⟨_, _, -, -, hRefused, -⟩ :=
    (parameters_emitted endlessLength "BookCreateInput" "pages" hEndless).1 ["min", "max"] rfl
  obtain ⟨_, _, -, -, -, hSame⟩ :=
    (parameters_emitted boundedLength "BookCreateInput" "pages" hBounded).1 ["min", "max"] rfl
  obtain ⟨texts, rest, hRun, -, -, -, -, hEmits⟩ :=
    (parameters_emitted strictPhone "BookCreateInput" "phone" hPhone).2 ["locale"] rfl
  refine ⟨⟨rfl, hRefused.refused .tooLong (by decide +kernel)⟩, ?_, ?_⟩
  · refine hSame steppedLength [(.text "step", .int 2)] rfl (List.Perm.swap _ _ _) ?_ ?_
    · simp [steppedLength]
    · simp
  · have hTexts : (Emission.options ["locale"] 0).run [strictPhone.bag] =
        (["None", "\x7b'strict_mode': True\x7d"], [strictPhone.bag, strictPhone.bag]) := rfl
    rw [hRun] at hTexts
    obtain rfl := (Prod.mk.inj hTexts).1
    exact hEmits

end EntityGraph
