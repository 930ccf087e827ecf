import EntityGraph.Proofs.Naming
import EntityGraph.Proofs.Words

/-!
# Segments of derived names

The attribute that holds a service and the methods of a handler class are segments with underscores
between them.  An underscore occurs in no segment, so a name tells its segments.  The attribute ends
with the segment of the service, and a method starts with the label of its kind; the two meet
exactly if the entity's segments start with that label and the operation's name goes on with the
others of them.

* `underscored_inj`: joined segments can be told apart;
* `segments_pascal_append`: a word at the end of a name in Pascal case;
* `toList_resolverClass`, `toList_serviceClass`, `toList_serviceAttribute`: the names of the classes
  and of the attribute;
* `resolverMethod_eq_serviceAttribute_iff`: which methods are named like the attribute.
-/

namespace EntityGraph.Naming

/-! ## Joined segments -/

/-- Segments that can be joined: none is empty, and an underscore occurs in none of them. -/
def Joinable (ws : List (List Char)) : Prop := ∀ w ∈ ws, w ≠ [] ∧ ∀ c ∈ w, c ≠ '_'

instance (ws : List (List Char)) : Decidable (Joinable ws) :=
  decidable_of_iff (ws.all (fun w => !w.isEmpty && w.all (· != '_')) = true) (by simp [Joinable])

theorem underscored_eq_nil {ws : List (List Char)} (h : Joinable ws) :
    underscored ws = [] ↔ ws = [] := by
  refine ⟨fun hNil => ?_, fun hNil => by rw [hNil]; rfl⟩
  cases ws with
  | nil => rfl
  | cons w ws =>
    have hWord := (h w List.mem_cons_self).1
    cases ws with
    | nil => exact absurd hNil hWord
    | cons v vs => exact absurd (List.append_eq_nil_iff.mp hNil).1 hWord

theorem underscored_inj {ws vs : List (List Char)} (hw : Joinable ws) (hv : Joinable vs)
    (h : underscored ws = underscored vs) : ws = vs := by
  induction ws generalizing vs with
  | nil => exact ((underscored_eq_nil hv).mp h.symm).symm
  | cons w ws ih =>
    cases vs with
    | nil => exact (underscored_eq_nil hw).mp h
    | cons v vs =>
      obtain ⟨⟨-, hWord⟩, hWords⟩ := List.forall_mem_cons.mp hw
      obtain ⟨⟨-, hWord'⟩, hWords'⟩ := List.forall_mem_cons.mp hv
      obtain rfl : w = v := by
        rw [← takeWhile_underscored hWord ws, h, takeWhile_underscored hWord']
      cases ws with
      | nil =>
        cases vs with
        | nil => rfl
        | cons v vs => simp [underscored] at h
      | cons w' ws =>
        cases vs with
        | nil => simp [underscored] at h
        | cons v vs =>
          have hRest := (List.cons.inj (List.append_cancel_left h)).2
          rw [ih hWords hWords' hRest]

theorem suffix_underscored (ws : List (List Char)) (w : List Char) :
    w <:+ underscored (ws ++ [w]) := by
  induction ws with
  | nil => exact List.suffix_refl w
  | cons v vs ih =>
    obtain ⟨first, hFirst⟩ := ih
    refine ⟨v ++ '_' :: first, ?_⟩
    rw [List.append_assoc, List.cons_append, hFirst]
    cases vs <;> rfl

theorem joinable_segments (name : List Char) : Joinable (segments name) := by
  intro w hw
  obtain ⟨run, hRun, rfl⟩ := List.mem_map.mp hw
  obtain ⟨hSome, hChars⟩ := runs_spec startsSegment name run hRun
  refine ⟨fun hNil => hSome (List.map_eq_nil_iff.mp hNil), fun c hc hLine => ?_⟩
  have hLower := lower_isAlphanum hChars c hc
  rw [hLine] at hLower
  cases hLower

/-! ## A word at the end -/

/-- The segments of a name that ends in a word with a capital. -/
theorem segments_append (a : List Char) {d e : Char} (hd : d.isUpper = true)
    (hSmall : d.isLower = false) (he : e.isLower = true) (rest : List Char) :
    segments (a ++ d :: e :: rest) = segments a ++ segments (d :: e :: rest) := by
  rw [segments, runs_append startsSegment_capitals a hd hSmall he, List.map_append]
  rfl

/-- The last segment of a service's attribute. -/
def serviceSegment : List Char := ['s', 'e', 'r', 'v', 'i', 'c', 'e']

theorem toList_resolverClass (m : String) :
    (resolverClass m).toList = pascalChars m.toList ++ "Resolver".toList := by
  rw [resolverClass, pascalCase, String.toList_ofList, String.toList_append]
  exact pascalChars_append m.toList (d := 'R') (e := 'e') (by decide) (by decide) (by decide) _

theorem toList_serviceClass (m : String) :
    (serviceClass m).toList = pascalChars m.toList ++ "Service".toList := by
  rw [serviceClass, pascalCase, String.toList_ofList, String.toList_append]
  exact pascalChars_append m.toList (d := 'S') (e := 'e') (by decide) (by decide) (by decide) _

theorem toList_serviceAttribute (m : String) : (serviceAttribute m).toList =
    underscored (segments (pascalChars m.toList) ++ [serviceSegment]) := by
  have hSegments := segments_append (pascalChars m.toList) (d := 'S') (e := 'e') (by decide)
    (by decide) (by decide) ['r', 'v', 'i', 'c', 'e']
  rw [serviceAttribute, snakeCase, String.toList_ofList, toList_serviceClass]
  exact congrArg underscored hSegments

/-- The attribute of a service ends with the segment of the service. -/
theorem serviceSegment_suffix (m : String) : serviceSegment <:+ (serviceAttribute m).toList := by
  rw [toList_serviceAttribute]
  exact suffix_underscored _ _

/-! ## Methods named like the attribute -/

theorem joinable_label (k : Kind) : Joinable [lower k.label.toList] := by
  cases k <;> decide +kernel

theorem joinable_serviceSegment : Joinable [serviceSegment] := by decide +kernel

variable {k : Kind} {operation m : String}

/-- A method is named like the attribute of the service exactly if the segments of the entity's
Pascal case start with the label of the kind, and the operation's name consists of the others of them
and the segment of the service. -/
theorem resolverMethod_eq_serviceAttribute_iff :
    resolverMethod k operation = serviceAttribute m ↔
      ∃ middle, segments (pascalChars m.toList) = lower k.label.toList :: middle ∧
        segments operation.toList = middle ++ [serviceSegment] := by
  have hMethod : Joinable (lower k.label.toList :: segments operation.toList) :=
    List.forall_mem_cons.mpr ⟨joinable_label k _ (.head _), joinable_segments _⟩
  have hAttribute : Joinable (segments (pascalChars m.toList) ++ [serviceSegment]) :=
    List.forall_mem_append.mpr ⟨joinable_segments _, joinable_serviceSegment⟩
  rw [← String.toList_inj, toList_resolverMethod, toList_serviceAttribute]
  constructor
  · intro h
    have hWords := underscored_inj hMethod hAttribute h
    cases hEntity : segments (pascalChars m.toList) with
    | nil =>
      rw [hEntity] at hWords
      have hLabel : lower k.label.toList = serviceSegment := (List.cons.inj hWords).1
      cases k <;> cases hLabel
    | cons first middle =>
      rw [hEntity] at hWords
      obtain ⟨hFirst, hRest⟩ := List.cons.inj hWords
      exact ⟨middle, by rw [hFirst], hRest⟩
  · rintro ⟨middle, hEntity, hOperation⟩
    rw [hEntity, hOperation]
    rfl

/-- The names of methods and of the attribute are not those of the methods that every handler class
has. -/
theorem resolverMethod_ne {name : String} (h : name = "__init__" ∨ name = "bind") :
    resolverMethod k operation ≠ name := by
  intro hName
  have hLabel := label_of_resolverMethod k operation
  rw [hName] at hLabel
  rcases h with rfl | rfl <;> cases k <;> revert hLabel <;> decide +kernel

theorem serviceAttribute_ne {name : String} (h : name = "__init__" ∨ name = "bind") :
    serviceAttribute m ≠ name := by
  intro hName
  have hSuffix := serviceSegment_suffix m
  rw [hName] at hSuffix
  rcases h with rfl | rfl <;> revert hSuffix <;> decide +kernel

end EntityGraph.Naming
