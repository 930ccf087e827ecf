import EntityGraph.Input.Coercion
import EntityGraph.Naming
import EntityGraph.Schema.Registry
import Mathlib.Data.List.Infix

/-!
# Derived names are unambiguous

A derived name is made of a model's name and the label of a kind, with a fixed word at its end.  No
label and none of the fixed words ends or starts with another one, so the parts can be told apart.

* `operationType_inj`, `block_inj`, `fragment_inj`: a derived name has one origin;
* `resolverMethod_kind`: the name of a method tells the kind of its operation;
* `inputType_ne_resultType`: input types and result types have different names;
* `inputType_not_taken`, `resultType_not_taken`: none is a name that the compiler or the schema
  language takes for itself;
* `checkName_of_isIdentifier`, `part_of_isIdentifier`: identifiers are names of a schema.
-/

namespace EntityGraph

/-! ## Endings and beginnings -/

theorem suffix_of_append_eq {a b s t : String} (h : a ++ s = b ++ t) :
    s.toList <:+ t.toList ∨ t.toList <:+ s.toList := by
  have hList : a.toList ++ s.toList = b.toList ++ t.toList := by
    rw [← String.toList_append, ← String.toList_append, h]
  exact List.suffix_or_suffix_of_suffix ⟨a.toList, hList⟩ (List.suffix_append b.toList t.toList)

theorem prefix_of_append_eq {a b s t : String} (h : s ++ a = t ++ b) :
    s.toList <+: t.toList ∨ t.toList <+: s.toList := by
  have hList : s.toList ++ a.toList = t.toList ++ b.toList := by
    rw [← String.toList_append, ← String.toList_append, h]
  exact List.prefix_or_prefix_of_prefix ⟨a.toList, hList⟩ (List.prefix_append t.toList b.toList)

theorem Kind.eq_of_label_suffix {k k' : Kind} (h : k.label.toList <:+ k'.label.toList) :
    k = k' := by
  cases k <;> cases k' <;> first | rfl | exact absurd h (by decide)

theorem Kind.eq_of_label_prefix {k k' : Kind} (h : k.label.toList <+: k'.label.toList) :
    k = k' := by
  cases k <;> cases k' <;> first | rfl | exact absurd h (by decide)

namespace Naming

variable {m m' : String} {k k' : Kind}

theorem operationType_inj (h : operationType m k = operationType m' k') : m = m' ∧ k = k' := by
  have hKind : k = k' := (suffix_of_append_eq h).elim Kind.eq_of_label_suffix
    fun hSuffix => (Kind.eq_of_label_suffix hSuffix).symm
  subst hKind
  exact ⟨(String.append_left_inj _).mp h, rfl⟩

theorem inputType_inj (h : inputType m k = inputType m' k') : m = m' ∧ k = k' :=
  operationType_inj ((String.append_left_inj _).mp h)

theorem resultType_inj (h : resultType m k = resultType m' k') : m = m' ∧ k = k' :=
  operationType_inj ((String.append_left_inj _).mp h)

theorem inputType_ne_resultType : inputType m k ≠ resultType m' k' := by
  intro h
  have hWords := suffix_of_append_eq h
  revert hWords
  decide

theorem block_inj (h : block m k = block m' k') : m = m' ∧ k = k' := by
  have hKind : k = k' := (prefix_of_append_eq h).elim Kind.eq_of_label_prefix
    fun hPrefix => (Kind.eq_of_label_prefix hPrefix).symm
  subst hKind
  exact ⟨(String.append_right_inj _).mp h, rfl⟩

theorem fragment_inj (h : fragment m = fragment m') : m = m' := (String.append_left_inj _).mp h

/-! ## Methods -/

/-- The first of several words is what comes before the first underscore. -/
theorem takeWhile_underscored {w : List Char} (hWord : ∀ c ∈ w, c ≠ '_') (ws : List (List Char)) :
    (underscored (w :: ws)).takeWhile (· ≠ '_') = w := by
  have hFirst : ∀ rest : List Char,
      (w ++ rest).takeWhile (· ≠ '_') = w ++ rest.takeWhile (· ≠ '_') :=
    fun rest => List.takeWhile_append_of_pos (by simpa using hWord)
  cases ws with
  | nil => simpa [underscored] using hFirst []
  | cons v vs => simpa [underscored] using hFirst ('_' :: underscored (v :: vs))

/-- The first segment of a label followed by a name is the label in small letters. -/
theorem segments_label (k : Kind) (name : List Char) :
    segments (k.label.toList ++ '_' :: name) = lower k.label.toList :: segments name := by
  cases k <;> rfl

/-- The segments of a method's name: the label of the kind, and those of the operation's name. -/
theorem toList_resolverMethod (k : Kind) (name : String) : (resolverMethod k name).toList =
    underscored (lower k.label.toList :: segments name.toList) := by
  have hChars : (k.label ++ "_" ++ name).toList = k.label.toList ++ '_' :: name.toList := by simp
  rw [resolverMethod, snakeCase, String.toList_ofList, hChars, segments_label]

theorem label_of_resolverMethod (k : Kind) (name : String) :
    (resolverMethod k name).toList.takeWhile (· ≠ '_') = lower k.label.toList := by
  have hLabel : ∀ c ∈ lower k.label.toList, c ≠ '_' := by
    have hAll : (lower k.label.toList).all (· != '_') = true := by
      cases k <;> decide
    simpa using hAll
  rw [toList_resolverMethod]
  exact takeWhile_underscored hLabel _

/-- The name of a method tells the kind of its operation. -/
theorem resolverMethod_kind {n n' : String} (h : resolverMethod k n = resolverMethod k' n') :
    k = k' := by
  have hLabels : lower k.label.toList = lower k'.label.toList := by
    rw [← label_of_resolverMethod k n, ← label_of_resolverMethod k' n', h]
  revert hLabels
  cases k <;> cases k' <;> decide

/-! ## Names that are taken -/

/-- The names of the types that are there without any definition. -/
def takenNames : List String :=
  ["Query", "Mutation", "Sort", "Paginate", "DateTime"] ++ Schema.builtinScalars ++
    Schema.introspectionTypes

theorem mem_takenNames {name : String} (h : Schema.isReservedType name = true) :
    name ∈ takenNames := by
  rw [Schema.isReservedType, Bool.or_eq_true, List.contains_iff_mem, List.contains_iff_mem] at h
  simp only [takenNames, List.mem_append]
  tauto

theorem inputType_not_taken : inputType m k ∉ takenNames := by
  intro hMem
  have hEnds : ∀ n ∈ takenNames, ¬ "Input".toList <:+ n.toList := by decide
  refine hEnds _ hMem ⟨(operationType m k).toList, ?_⟩
  rw [inputType, String.toList_append]

theorem resultType_not_taken : resultType m k ∉ takenNames := by
  intro hMem
  have hEnds : ∀ n ∈ takenNames, ¬ "Result".toList <:+ n.toList := by decide
  refine hEnds _ hMem ⟨(operationType m k).toList, ?_⟩
  rw [resultType, String.toList_append]

theorem inputType_not_reserved : Schema.isReservedType (inputType m k) = false :=
  Bool.eq_false_iff.mpr fun h => inputType_not_taken (mem_takenNames h)

theorem resultType_not_reserved : Schema.isReservedType (resultType m k) = false :=
  Bool.eq_false_iff.mpr fun h => resultType_not_taken (mem_takenNames h)

end Naming

/-! ## Identifiers -/

theorem checkName_of_isIdentifier {s : String} (h : Input.isIdentifier s = true) :
    Schema.checkName s = .ok () := by
  unfold Input.isIdentifier at h
  unfold Schema.checkName
  cases hChars : s.toList with
  | nil => simp [hChars] at h
  | cons c cs =>
    simp only [hChars, Bool.and_eq_true] at h
    have hStart : Schema.isNameStart c = true := h.1
    have hRest : cs.all Schema.isNamePart = true := h.2
    simp [hStart, hRest]

/-- An identifier has no other characters than those that it may go on with. -/
theorem part_of_isIdentifier {s : String} (h : Input.isIdentifier s = true) :
    ∀ c ∈ s.toList, Input.isIdentifierPart c = true := by
  unfold Input.isIdentifier at h
  cases hChars : s.toList with
  | nil => simp
  | cons c cs =>
    simp only [hChars, Bool.and_eq_true, List.all_eq_true] at h
    refine List.forall_mem_cons.mpr ⟨?_, h.2⟩
    have hFirst := h.1
    simp only [Input.isIdentifierStart, Input.isIdentifierPart, Char.isAlphanum,
      Bool.or_eq_true] at hFirst ⊢
    tauto

theorem isIdentifier_append {s t : String} (hs : Input.isIdentifier s = true)
    (ht : Input.isIdentifier t = true) : Input.isIdentifier (s ++ t) = true := by
  have hPart : t.toList.all Input.isIdentifierPart = true :=
    List.all_eq_true.mpr (part_of_isIdentifier ht)
  unfold Input.isIdentifier at hs ⊢
  rw [String.toList_append]
  cases hChars : s.toList with
  | nil => simp [hChars] at hs
  | cons c cs =>
    simp only [hChars, Bool.and_eq_true, List.cons_append, List.all_append] at hs ⊢
    exact ⟨hs.1, hs.2, hPart⟩

end EntityGraph
