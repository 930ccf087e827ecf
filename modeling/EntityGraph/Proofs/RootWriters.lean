import EntityGraph.Proofs.Clean

/-!
# Who writes a root field

Different operations can write one root field: its name is the name of the operation followed by the
name of the entity, and two such names can be put together in more than one way.  The compiler walks
through all operations once for each root and lets a later operation replace an earlier one.  The
audit walks through them once and groups the entities by root and name.  What the audit reports is
what the compiler does.

* `RootFields.writersOf`: the operations that write a root field, in the order of declaration;
* `RootFields.operationsOf_existsUnique`: every operation has one root;
* `RootFields.ofRoot_ok_iff`: which roots have fields;
* `RootFields.keys_ofRoot`, `RootFields.get?_ofRoot`: their names, and what stands under a name;
* `RootFields.mem_rootFields`: which root fields the audit reports, and with which entities;
* `root_fields_predicted`: the last entity that it lists is the one that the field serves.
-/

namespace EntityGraph

open Outcome

namespace Schema.RootFields

variable {r : Registry} {root : Root} {fields : RootFields}

/-- The root field that an operation of an entity writes. -/
def nameOf (mo : Model × Operation) : String := Naming.rootField mo.2.name mo.1.name

/-- The operations that write a field of a root, in the order of declaration. -/
def writersOf (r : Registry) (root : Root) (name : String) : List (Model × Operation) :=
  (operationsOf r root).filter fun mo => nameOf mo = name

/-- An operation of a known kind belongs to one root. -/
theorem operationsOf_existsUnique {mo : Model × Operation} (h : mo ∈ operations r.models)
    {kind : Kind} (hKind : mo.2.kind? = .ok kind) : ∃! root, mo ∈ operationsOf r root := by
  obtain ⟨m, o⟩ := mo
  obtain ⟨hm, ho⟩ := mem_operations.mp h
  refine ⟨kind.root, mem_operationsOf.mpr ⟨hm, ho, kind, hKind, rfl⟩, ?_⟩
  intro root hRoot
  obtain ⟨-, -, kind', hKind', rfl⟩ := mem_operationsOf.mp hRoot
  obtain rfl := Except.ok.inj (hKind.symm.trans hKind')
  rfl

/-- The fields of a root exist if the registry has the types of all arguments that its operations
take. -/
theorem ofRoot_ok_iff (hCoherent : r.Coherent)
    (hKinds : ∀ mo ∈ operations r.models, ∃ kind, mo.2.kind? = .ok kind) :
    (∃ fields, (ofRoot r root).value = .ok fields) ↔
      ∀ mo ∈ operationsOf r root, ∀ a ∈ mo.2.arguments, r.has a.type = true := by
  constructor
  · rintro ⟨fields, hFields⟩ mo hmo
    obtain ⟨-, ts, hTypes, -⟩ := ofRoot_eq_ok.mp hFields
    obtain ⟨t, -, hMake⟩ := mem_mapM hTypes hmo
    obtain ⟨kind, slot, args, -, -, hArgs, -⟩ := OperationTypes.make_eq_ok.mp hMake
    exact (argumentFields_eq_ok.mp hArgs).1
  · intro hTypes
    have hMake : ∀ mo ∈ operationsOf r root, ∃ t, OperationTypes.make r mo.1 mo.2 = .ok t := by
      rintro ⟨m, o⟩ hmo
      obtain ⟨hm, -, kind, hKind, -⟩ := mem_operationsOf.mp hmo
      obtain ⟨slot, hSlot⟩ := hCoherent.object_of_mem hm
      have hArgs := argumentFields_eq_ok.mpr ⟨hTypes _ hmo, rfl⟩
      exact ⟨_, OperationTypes.make_eq_ok.mpr ⟨kind, slot, _, hKind, hSlot, hArgs, rfl⟩⟩
    obtain ⟨ts, hMap⟩ := mapM_ok hMake
    exact ⟨_, ofRoot_eq_ok.mpr ⟨hKinds, ts, hMap, rfl⟩⟩

/-- The names of the fields of a root are those that its operations write, in the order of the first
writes. -/
theorem keys_ofRoot (h : (ofRoot r root).value = .ok fields) :
    fields.keys = firstOccurrences ((operationsOf r root).map nameOf) := by
  obtain ⟨-, ts, hTypes, rfl⟩ := ofRoot_eq_ok.mp h
  have hNames : (writes ts).map (·.1) = (operationsOf r root).map nameOf := by
    rw [writes, List.map_map]
    exact mapM_map_eq hTypes fun mo t hMake => (OperationTypes.make_origin hMake).2.2
  rw [Table.keys_putAll_empty, hNames]

/-- The last item with a property. -/
theorem getLast?_filter_eq_some {α : Type} {p : α → Bool} {xs : List α} {x : α} :
    (xs.filter p).getLast? = some x ↔ p x = true ∧ ∃ before later, xs = before ++ x :: later ∧
      ∀ y ∈ later, ¬ p y = true := by
  rw [List.getLast?_eq_head?_reverse, ← List.filter_reverse, List.head?_filter,
    List.find?_eq_some_iff_append]
  refine and_congr_right fun _ => ⟨?_, ?_⟩
  · rintro ⟨later, before, hReverse, hLater⟩
    refine ⟨before.reverse, later.reverse, ?_, ?_⟩
    · rw [← List.reverse_inj, hReverse]
      simp
    · simpa using hLater
  · rintro ⟨before, later, rfl, hLater⟩
    exact ⟨later.reverse, before.reverse, by simp, by simpa using hLater⟩

/-- The last operation that writes a field of a root is the one that prevails. -/
theorem getLast?_writersOf {name : String} {m : Model} {o : Operation} :
    (writersOf r root name).getLast? = some (m, o) ↔
      ∃ kind, kind.root = root ∧ nameOf (m, o) = name ∧ Prevails r.models m o kind := by
  rw [writersOf, operationsOf, List.filter_filter, getLast?_filter_eq_some]
  simp only [Bool.and_eq_true, decide_eq_true_eq, isWanted_iff]
  constructor
  · rintro ⟨⟨hName, kind, hKind, hRoot⟩, before, later, hAll, hLast⟩
    refine ⟨kind, hRoot, hName, hKind, before, later, hAll, ?_⟩
    intro mo hmo kind' hKind' hSame hEq
    exact hLast mo hmo ⟨hEq.trans hName, kind', hKind', hSame.trans hRoot⟩
  · rintro ⟨kind, rfl, rfl, hKind, before, later, hAll, hLast⟩
    refine ⟨⟨rfl, kind, hKind, rfl⟩, before, later, hAll, ?_⟩
    rintro mo hmo ⟨hEq, kind', hKind', hSame⟩
    exact hLast mo hmo kind' hKind' hSame hEq

/-- A field of a root has the types of the last operation that writes it. -/
theorem get?_ofRoot (h : (ofRoot r root).value = .ok fields) {name : String} {t : OperationTypes} :
    fields.get? name = some t ↔ ∃ mo, (writersOf r root name).getLast? = some mo ∧
      OperationTypes.make r mo.1 mo.2 = .ok t := by
  rw [Table.get?_eq_some_iff (ofRoot_nodup h), mem_ofRoot_iff h]
  constructor
  · rintro ⟨hName, hRoot, m, o, hPrevails, hMake⟩
    have hField := (OperationTypes.make_origin hMake).2.2
    have hLast := getLast?_writersOf.mpr ⟨t.kind, hRoot, (hName.trans hField).symm, hPrevails⟩
    exact ⟨(m, o), hLast, hMake⟩
  · rintro ⟨⟨m, o⟩, hLast, hMake⟩
    obtain ⟨kind, hRoot, hName, hPrevails⟩ := getLast?_writersOf.mp hLast
    obtain ⟨hKind, -, hField⟩ := OperationTypes.make_origin hMake
    obtain rfl := Except.ok.inj (hPrevails.known.symm.trans hKind)
    exact ⟨hName.symm.trans hField.symm, hRoot, m, o, hPrevails, hMake⟩

/-! ## The audit -/

/-- The operations that write a root field, told by root and name. -/
theorem writersOf_eq (hKinds : ∀ m ∈ r.models, ∀ o ∈ m.operations, o.kind? = .ok o.knownKind)
    {name : String} : writersOf r root name = (operations r.models).filter fun mo =>
      (mo.2.knownKind.root, nameOf mo) = (root, name) := by
  rw [writersOf, operationsOf, List.filter_filter]
  refine List.filter_congr fun mo hmo => ?_
  obtain ⟨hm, ho⟩ := mem_operations.mp hmo
  rw [isWanted, hKinds mo.1 hm mo.2 ho, Bool.eq_iff_iff]
  simp [and_comm]

/-- The audit reports the root fields that are written more than once, each of them once with the
entities that write it in the order of their writes. -/
theorem mem_rootFields (hKinds : ∀ m ∈ r.models, ∀ o ∈ m.operations, o.kind? = .ok o.knownKind) :
    ∃ cs, Audit.rootFields r.models = .ok cs ∧ cs.Nodup ∧ ∀ root name names,
      .duplicateRootField root name names ∈ cs ↔
        names = (writersOf r root name).map (·.1.name) ∧ 2 ≤ names.length := by
  obtain ⟨writes, hWrites, hAll⟩ := Audit.writes_ok hKinds
  refine ⟨_, bind_eq_ok.mpr ⟨_, bind_eq_ok.mpr ⟨writes, hWrites, rfl⟩, rfl⟩, ?_, ?_⟩
  · refine (List.Nodup.of_map _ (Audit.grouped_foldl writes.flatten).nodup).filterMap ?_
    rintro ⟨⟨root, name⟩, names⟩ ⟨⟨root', name'⟩, names'⟩ c hc hc'
    obtain ⟨-, hSame⟩ := Option.ite_none_right_eq_some.mp hc
    obtain ⟨-, hSame'⟩ := Option.ite_none_right_eq_some.mp hc'
    cases hSame.trans hSame'.symm
    rfl
  intro root name names
  have hEntry : ((root, name), names) ∈
      writes.flatten.foldl (fun ws w => Audit.Writers.add w.1 w.2 ws) [] ↔
        names = (writersOf r root name).map (·.1.name) ∧ names ≠ [] := by
    rw [Audit.mem_foldl_add, hAll, List.filter_map, List.map_map, writersOf_eq hKinds]
    rfl
  rw [List.mem_filterMap]
  constructor
  · rintro ⟨⟨⟨root', name'⟩, names'⟩, hMem, hReported⟩
    obtain ⟨hLong, hSame⟩ := Option.ite_none_right_eq_some.mp hReported
    cases hSame
    exact ⟨(hEntry.mp hMem).1, hLong⟩
  · rintro ⟨hNames, hLong⟩
    have hSome : names ≠ [] := List.ne_nil_of_length_pos (by omega)
    exact ⟨_, hEntry.mpr ⟨hNames, hSome⟩, if_pos hLong⟩

/-! ## Served entities -/

/-- The input and the result type of an operation are those of an entity. -/
structure Serves (r : Registry) (t : OperationTypes) (model : String) : Prop where
  input : t.inputKey.name = Naming.inputType model t.kind
  result : t.resultKey.name = Naming.resultType model t.kind
  entity : ∃ slot, r.objects.get? model = some slot ∧
    t.result = resultFields (t.kind = .list) ⟨.entity slot, model⟩

theorem Serves.of_make {m : Model} {o : Operation} {t : OperationTypes}
    (h : OperationTypes.make r m o = .ok t) : Serves r t m.name := by
  obtain ⟨kind, slot, args, -, hSlot, -, rfl⟩ := OperationTypes.make_eq_ok.mp h
  exact ⟨rfl, rfl, slot, hSlot, rfl⟩

/-- A field of a root serves the last of the entities that write it. -/
theorem served_by_last (h : (ofRoot r root).value = .ok fields) {name : String}
    {names : List String} (hNames : names = (writersOf r root name).map (·.1.name))
    (hSome : names ≠ []) :
    ∃ t last, fields.get? name = some t ∧ names.getLast? = some last ∧ Serves r t last := by
  have hWritten : writersOf r root name ≠ [] := by
    intro hNone
    rw [hNone] at hNames
    exact hSome hNames
  obtain ⟨mo, hLast⟩ : ∃ mo, (writersOf r root name).getLast? = some mo :=
    ⟨_, List.getLast?_eq_some_getLast hWritten⟩
  obtain ⟨-, ts, hTypes, -⟩ := ofRoot_eq_ok.mp h
  obtain ⟨t, -, hMake⟩ := mem_mapM hTypes (List.mem_of_mem_filter (List.mem_of_getLast? hLast))
  refine ⟨t, mo.1.name, (get?_ofRoot h).mpr ⟨mo, hLast, hMake⟩, ?_, .of_make hMake⟩
  rw [hNames, List.getLast?_map, hLast]
  rfl

end Schema.RootFields

open Schema RootFields

/-- The finding of a root field that is written more than once tells the field and the entities. -/
theorem Audit.Concern.eq_duplicateRootField {c : Audit.Concern} {root : Root} {name : String}
    {names : List String} (h : c.finding = (duplicateRootField root name names).finding) :
    c = duplicateRootField root name names := by
  obtain ⟨-, hCode, -, hContext⟩ := Audit.Finding.mk.inj h
  cases c with
  | duplicateRootField root' name' names' =>
    simp only [context, Value.texts, List.cons.injEq, Prod.mk.injEq, Value.text.injEq,
      Value.list.injEq, true_and, and_true] at hContext
    obtain ⟨hRoot, rfl, hNames⟩ := hContext
    have hTexts : Function.Injective Value.text := fun _ _ hText => Value.text.inj hText
    obtain rfl := List.map_injective_iff.mpr hTexts hNames
    cases root <;> cases root' <;> first | rfl | simp [Root.typeName] at hRoot
  | _ => simp [code] at hCode

/-- Once parsed entities are registered, every operation contributes to one root.  A root has its
fields as soon as the types of all arguments are known.  Their names are in the order of the first
writes, and each field is built from the last operation that writes it.  The audit reports the names
that are written more than once, each once with the entities in the order of their writes, and the
last of these is the one that the field serves. -/
theorem root_fields_predicted {scalars : List String} {models : List Model} {r : Registry}
    (hRead : ∀ m ∈ models, ∃ v, Input.model.read v = .ok m)
    (hRegister : register { scalars } models = .ok r) :
    (∀ mo ∈ RootFields.operations models, ∃! root, mo ∈ operationsOf r root) ∧
    (∀ root, (∃ fields, (ofRoot r root).value = .ok fields) ↔
      ∀ mo ∈ operationsOf r root, ∀ a ∈ mo.2.arguments, r.has a.type = true) ∧
    (∀ root fields, (ofRoot r root).value = .ok fields →
      fields.keys = firstOccurrences ((operationsOf r root).map nameOf) ∧
      ∀ name t, fields.get? name = some t ↔ ∃ mo, (writersOf r root name).getLast? = some mo ∧
        OperationTypes.make r mo.1 mo.2 = .ok t) ∧
    ∃ cs, Audit.rootFields models = .ok cs ∧ cs.Nodup ∧ ∀ root name names,
      ((Audit.Concern.duplicateRootField root name names).finding ∈ Audit.findings cs ↔
        names = (writersOf r root name).map (·.1.name) ∧ 2 ≤ names.length) ∧
      ((Audit.Concern.duplicateRootField root name names).finding ∈ Audit.findings cs →
        ∀ fields, (ofRoot r root).value = .ok fields → ∃ t last, fields.get? name = some t ∧
          names.getLast? = some last ∧ Serves r t last) := by
  obtain ⟨hCoherent, -, rfl, -⟩ := register_spec hRegister
  have hKinds : ∀ m ∈ r.models, ∀ o ∈ m.operations, o.kind? = .ok o.knownKind := by
    intro m hm o ho
    obtain ⟨v, hValue⟩ := hRead m hm
    exact ((Model.wellFormed_of_read hValue).operations o ho).kind?_eq
  have hKnown : ∀ mo ∈ RootFields.operations r.models, mo.2.kind? = .ok mo.2.knownKind := by
    intro mo hmo
    obtain ⟨hm, ho⟩ := mem_operations.mp hmo
    exact hKinds mo.1 hm mo.2 ho
  obtain ⟨cs, hConcerns, hOnce, hReported⟩ := mem_rootFields hKinds
  have hFinding : ∀ root name names,
      (Audit.Concern.duplicateRootField root name names).finding ∈ Audit.findings cs ↔
        names = (writersOf r root name).map (·.1.name) ∧ 2 ≤ names.length := by
    intro root name names
    rw [← hReported, Audit.findings]
    constructor
    · intro hMem
      obtain ⟨c, hc, hSame⟩ := List.mem_map.mp hMem
      exact Audit.Concern.eq_duplicateRootField hSame ▸ hc
    · exact List.mem_map_of_mem
  refine ⟨fun mo hmo => operationsOf_existsUnique hmo (hKnown mo hmo), fun root => ?_, ?_, ?_⟩
  · exact ofRoot_ok_iff hCoherent fun mo hmo => ⟨_, hKnown mo hmo⟩
  · intro root fields hFields
    exact ⟨keys_ofRoot hFields, fun name t => get?_ofRoot hFields⟩
  · refine ⟨cs, hConcerns, hOnce, fun root name names => ⟨hFinding root name names, ?_⟩⟩
    intro hMem fields hFields
    obtain ⟨hNames, hLong⟩ := (hFinding root name names).mp hMem
    exact served_by_last hFields hNames (List.ne_nil_of_length_pos (by omega))

/-- A shelf, which shows one of its books. -/
def bookOnShelf : Model :=
  ⟨"Shelf", [], [], [⟨"getBook", "Show", [], []⟩, ⟨"add", "Create", [], []⟩]⟩

/-- A shelf for books, of which all are listed. -/
def bookShelf : Model := ⟨"BookShelf", [], [], [⟨"get", "List", [], []⟩]⟩

/-- A value that reads as an entity without fields. -/
def servedValue (model : String) (operations : List (String × String)) : Value :=
  Value.record [("name", .text model), ("properties", .list []), ("operations",
    .list (operations.map fun o => Value.record [("name", .text o.1), ("type", .text o.2)]))]

/-- The registry of both shelves. -/
def shelves : Registry :=
  { slots := [{ model := bookOnShelf }, { model := bookShelf }],
    objects := [("Shelf", 0), ("BookShelf", 1)], models := [bookOnShelf, bookShelf] }

/-- Both shelves write the root field `getBookShelf`, and it serves the second. -/
theorem shelves_predicted :
    ∃ cs, Audit.rootFields [bookOnShelf, bookShelf] = .ok cs ∧
      (Audit.Concern.duplicateRootField .query "getBookShelf" ["Shelf", "BookShelf"]).finding ∈
        Audit.findings cs ∧
      ∃ fields t, (ofRoot shelves .query).value = .ok fields ∧
        fields.get? "getBookShelf" = some t ∧ Serves shelves t "BookShelf" := by
  have hRead : ∀ m ∈ [bookOnShelf, bookShelf], ∃ v, Input.model.read v = .ok m := by
    intro m hm
    rcases List.mem_pair.mp hm with rfl | rfl
    · exact ⟨servedValue "Shelf" [("getBook", "Show"), ("add", "Create")], by rfl⟩
    · exact ⟨servedValue "BookShelf" [("get", "List")], by rfl⟩
  obtain ⟨-, hExists, -, cs, hConcerns, -, hReported⟩ :=
    @root_fields_predicted defaultScalars _ shelves hRead (by rfl)
  obtain ⟨hFinding, hLast⟩ := hReported .query "getBookShelf" ["Shelf", "BookShelf"]
  have hMem := hFinding.mpr ⟨by rfl, by decide⟩
  obtain ⟨fields, hFields⟩ := (hExists .query).mpr (by decide +kernel)
  obtain ⟨t, last, hField, hEq, hServes⟩ := hLast hMem fields hFields
  obtain rfl := Option.some.inj hEq
  exact ⟨cs, hConcerns, hMem, fields, t, hFields, hField, hServes⟩

end EntityGraph
