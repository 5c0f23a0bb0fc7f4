import VarDoc.Proofs.ByteOrder
import VarDoc.Proofs.StorableDocument
import VarDoc.Proofs.StoredDocument

/-! Values without a JSON. A value has one just when no object of a running program
lies in it, and otherwise the error names the object that would be written first:
sequences are written in their order, maps by the bytes of their keys. So a snapshot
whose file can be made fails just when a record holds such an object. -/

set_option autoImplicit false

namespace VarDoc

namespace Value

inductive Step where
  | item (index : Nat)
  | entry (key : String)

/-- Among the parts of one value, the part behind the left step is written first. -/
def Step.Earlier : Step → Step → Prop
  | .item left, .item right => left < right
  | .entry left, .entry right => bytesOf left < bytesOf right
  | _, _ => False

inductive Part : Value → Step → Value → Prop where
  | item {items : List Value} {index : Nat} {item : Value} (listed : items[index]? = some item) :
    Part (.seq items) (.item index) item
  | entry {entries : List (String × Value)} {key : String} {value : Value}
    (listed : (key, value) ∈ entries) : Part (.map entries) (.entry key) value

inductive Holds : Value → List Step → Value → Prop where
  | here {value : Value} : Holds value [] value
  | inside {value part found : Value} {step : Step} {way : List Step} (stepped : value.Part step part)
    (held : Holds part way found) : Holds value (step :: way) found

def isObject : Value → Bool
  | .namespaceRef _ | .varRef _ _ | .function _ => true
  | _ => false

/-- The object lies at the end of the way, and every other object in the value is
written after it. -/
structure First (value : Value) (way : List Step) (object : Value) : Prop where
  held : value.Holds way object
  isObject : object.isObject = true
  earliest : ∀ other found, value.Holds other found → found.isObject = true →
    other = way ∨ List.Lex Step.Earlier way other

variable {value inner : Value} {step : Step}

theorem Part.sizeOf_lt (stepped : value.Part step inner) : sizeOf inner < sizeOf value := by
  cases stepped with
  | item listed =>
    have smaller := List.sizeOf_lt_of_mem (List.mem_of_getElem? listed)
    rw [seq.sizeOf_spec]
    omega
  | @entry entries key value listed =>
    have smaller := List.sizeOf_lt_of_mem listed
    rw [Prod.mk.sizeOf_spec] at smaller
    rw [map.sizeOf_spec]
    omega

theorem induction_parts {motive : Value → Prop}
    (whole : ∀ value : Value, (∀ step part, value.Part step part → motive part) → motive value)
    (value : Value) : motive value :=
  whole value fun _ part _ => induction_parts whole part
termination_by sizeOf value
decreasing_by exact Part.sizeOf_lt ‹_›

theorem Part.not_isObject (stepped : value.Part step inner) : value.isObject = false := by
  cases stepped <;> rfl

theorem forall_parts_seq {items : List Value} {property : Value → Prop} :
    (∀ step part, (Value.seq items).Part step part → property part) ↔ ∀ item ∈ items, property item := by
  constructor
  · intro each item member
    obtain ⟨index, listed⟩ := List.getElem?_of_mem member
    exact each _ item (.item listed)
  · intro each step part stepped
    cases stepped with
    | item listed => exact each part (List.mem_of_getElem? listed)

theorem forall_parts_map {entries : List (String × Value)} {property : Value → Prop} :
    (∀ step part, (Value.map entries).Part step part → property part) ↔
      ∀ entry ∈ entries, property entry.2 := by
  constructor
  · exact fun each entry member => each _ entry.2 (.entry member)
  · intro each step part stepped
    cases stepped with
    | entry listed => exact each _ listed

section Order

theorem Step.Earlier.asymm {left right : Step} (before : left.Earlier right) : ¬ right.Earlier left := by
  cases left with
  | item =>
    cases right with
    | item => exact Nat.lt_asymm before
    | entry => exact before.elim
  | entry =>
    cases right with
    | item => exact before.elim
    | entry => exact List.lt_asymm before

theorem Step.Earlier.irrefl (step : Step) : ¬ step.Earlier step := fun before => before.asymm before

theorem lex_asymm {left right : List Step} (before : List.Lex Step.Earlier left right) :
    ¬ List.Lex Step.Earlier right left := by
  induction before with
  | nil => rintro ⟨⟩
  | rel earlier =>
    rintro (_ | later | ⟨-⟩)
    · exact earlier.asymm later
    · exact Step.Earlier.irrefl _ earlier
  | cons _ ih =>
    rintro (_ | later | again)
    · exact Step.Earlier.irrefl _ later
    · exact ih again

theorem Part.compare {other : Step} {another : Value} (stepped : value.Part step inner)
    (steppedOther : value.Part other another) :
    other = step ∨ step.Earlier other ∨ other.Earlier step := by
  cases stepped with
  | @item _ left =>
    cases steppedOther with
    | @item _ right =>
      rcases Nat.lt_trichotomy left right with before | rfl | after
      · exact .inr (.inl before)
      · exact .inl rfl
      · exact .inr (.inr after)
  | @entry _ left =>
    cases steppedOther with
    | @entry _ right =>
      rcases Std.lt_trichotomy left right with before | rfl | after
      · exact .inr (.inl (bytesOf_lt before))
      · exact .inl rfl
      · exact .inr (.inr (bytesOf_lt after))

end Order

section Sorted

theorem itemsSorted_iff (items : List Value) : ItemsSorted items ↔ ∀ item ∈ items, item.Sorted := by
  induction items with
  | nil => simp [ItemsSorted]
  | cons item rest ih => simp [ItemsSorted, ih]

theorem entriesSorted_iff (entries : List (String × Value)) :
    EntriesSorted entries ↔ ∀ entry ∈ entries, entry.2.Sorted := by
  induction entries with
  | nil => simp [EntriesSorted]
  | cons entry rest ih => simp [EntriesSorted, ih]

theorem Sorted.part (sorted : value.Sorted) (stepped : value.Part step inner) : inner.Sorted := by
  cases stepped with
  | item listed => exact (itemsSorted_iff _).1 sorted _ (List.mem_of_getElem? listed)
  | entry listed => exact (entriesSorted_iff _).1 sorted.2 _ listed

/-- No two entries of a map have one key, so a step leads to one part only. -/
theorem Part.unique {other : Value} (sorted : value.Sorted) (stepped : value.Part step inner)
    (again : value.Part step other) : inner = other := by
  cases stepped with
  | item listed =>
    cases again with
    | item listedToo => exact Option.some.inj (listed.symm.trans listedToo)
  | @entry entries key inner listed =>
    cases again with
    | entry listedToo =>
      let fields : Dict Value := ⟨entries, sorted.1⟩
      have found : fields.get? key = some inner := Dict.mem_entries_iff.1 listed
      exact Option.some.inj (found.symm.trans (Dict.mem_entries_iff.1 listedToo))

theorem Holds.unique {way : List Step} {found other : Value} (held : value.Holds way found)
    (sorted : value.Sorted) (again : value.Holds way other) : found = other := by
  induction held with
  | here =>
    cases again
    rfl
  | inside stepped _ ih =>
    cases again with
    | inside steppedToo heldToo =>
      obtain rfl := stepped.unique sorted steppedToo
      exact ih (sorted.part stepped) heldToo

theorem First.unique {way other : List Step} {object another : Value} (sorted : value.Sorted)
    (first : value.First way object) (again : value.First other another) : object = another := by
  have same : other = way := by
    rcases first.earliest other another again.held again.isObject with same | before
    · exact same
    · rcases again.earliest way object first.held first.isObject with same | after
      · exact same.symm
      · exact absurd after (lex_asymm before)
  subst same
  exact first.held.unique sorted again.held

end Sorted

section Serialization

theorem toJson_ok_iff_parts : (∃ json, value.toJson = .ok json) ↔
    value.isObject = false ∧ ∀ step part, value.Part step part → ∃ json, part.toJson = .ok json := by
  cases value with
  | seq items =>
    rw [forall_parts_seq, ← exists_mapM_ok_iff, toJson, exists_exceptMap_ok_iff, itemsToJson_eq_mapM]
    exact (and_iff_right rfl).symm
  | map entries =>
    rw [forall_parts_map, toJson, exists_exceptMap_ok_iff, entriesToJson_eq_mapM, exists_mapM_ok_iff]
    simp only [entryToJson, exists_exceptMap_ok_iff]
    exact (and_iff_right rfl).symm
  | nil | bool | int | float | text | keyword | symbol | code =>
    refine iff_of_true ⟨_, rfl⟩ ⟨rfl, fun step part stepped => ?_⟩
    cases stepped
  | namespaceRef | varRef | function =>
    apply iff_of_false
    · rintro ⟨json, written⟩
      cases written
    · rintro ⟨plain, -⟩
      cases plain

theorem toJson_error_cases {culprit : Value} (sorted : value.Sorted)
    (failed : value.toJson = .error culprit) :
    value.isObject = true ∧ culprit = value ∨
    ∃ step part, value.Part step part ∧ part.toJson = .error culprit ∧
      ∀ other earlier, value.Part other earlier → other.Earlier step →
        ∃ json, earlier.toJson = .ok json := by
  cases value with
  | seq items =>
    right
    rw [toJson, exceptMap_eq_error_iff, itemsToJson_eq_mapM] at failed
    obtain ⟨before, item, after, rfl, fails, succeed⟩ := exists_of_mapM_error failed
    refine ⟨.item before.length, item, .item (by simp), fails, ?_⟩
    intro other earlier stepped before'
    cases stepped with
    | item listed =>
      rw [List.getElem?_append_left before'] at listed
      exact succeed earlier (List.mem_of_getElem? listed)
  | map entries =>
    right
    rw [toJson, exceptMap_eq_error_iff, entriesToJson_eq_mapM] at failed
    obtain ⟨before, entry, after, rfl, fails, succeed⟩ := exists_of_mapM_error failed
    rw [entryToJson, exceptMap_eq_error_iff] at fails
    refine ⟨.entry entry.1, entry.2, .entry (by simp), fails, ?_⟩
    intro other earlier stepped smaller
    cases stepped with
    | @entry _ key _ listed =>
      rcases List.mem_append.1 listed with isBefore | notBefore
      · exact exists_exceptMap_ok_iff.1 (succeed _ isBefore)
      · exfalso
        rcases List.mem_cons.1 notBefore with same | isBehind
        · rw [← same] at smaller
          exact Step.Earlier.irrefl _ smaller
        · have larger := List.rel_of_pairwise_cons (List.pairwise_append.1 sorted.1).2.1 isBehind
          exact Step.Earlier.asymm smaller (bytesOf_lt larger)
  | nil | bool | int | float | text | keyword | symbol | code => cases failed
  | namespaceRef | varRef | function =>
    cases failed
    exact .inl ⟨rfl, rfl⟩

theorem Holds.not_isObject {way : List Step} {found : Value} (held : value.Holds way found)
    (written : ∃ json, value.toJson = .ok json) : found.isObject = false := by
  induction held with
  | here => exact (toJson_ok_iff_parts.1 written).1
  | inside stepped _ ih => exact ih ((toJson_ok_iff_parts.1 written).2 _ _ stepped)

/-- The error of a value without a JSON is the object in it that is written first. -/
theorem exists_first_of_error {culprit : Value} (sorted : value.Sorted)
    (failed : value.toJson = .error culprit) : ∃ way, value.First way culprit := by
  induction value using induction_parts with
  | whole value ih =>
  rcases toJson_error_cases sorted failed with
    ⟨object, rfl⟩ | ⟨step, part, stepped, fails, succeed⟩
  · refine ⟨[], .here, object, fun other found held _ => .inl ?_⟩
    cases held with
    | here => rfl
    | inside stepped => exact absurd object (by rw [stepped.not_isObject]; decide)
  · obtain ⟨way, first⟩ := ih step part stepped (sorted.part stepped) fails
    refine ⟨step :: way, .inside stepped first.held, first.isObject, fun other found held object => ?_⟩
    cases held with
    | here => exact absurd object (by rw [stepped.not_isObject]; decide)
    | @inside _ another _ otherStep rest steppedOther heldOther =>
      rcases stepped.compare steppedOther with rfl | later | sooner
      · obtain rfl := stepped.unique sorted steppedOther
        exact (first.earliest rest found heldOther object).imp (congrArg _) .cons
      · exact .inr (.rel later)
      · have none := heldOther.not_isObject (succeed otherStep another steppedOther sooner)
        exact absurd object (by rw [none]; decide)

theorem toJson_eq_error_iff {culprit : Value} (sorted : value.Sorted) :
    value.toJson = .error culprit ↔ ∃ way, value.First way culprit := by
  refine ⟨exists_first_of_error sorted, ?_⟩
  rintro ⟨way, first⟩
  cases written : value.toJson with
  | ok json =>
    have none := first.held.not_isObject ⟨json, written⟩
    exact absurd first.isObject (by rw [none]; decide)
  | error other =>
    obtain ⟨_, again⟩ := exists_first_of_error sorted written
    rw [again.unique sorted first]

theorem isPlain_of_parts (notObject : value.isObject = false)
    (parts : ∀ step part, value.Part step part → part.isPlain = true) : value.isPlain = true := by
  cases value with
  | seq items =>
    rw [isPlain, allPlain_iff]
    exact forall_parts_seq.1 parts
  | map entries =>
    rw [isPlain, entriesPlain_iff]
    exact forall_parts_map.1 parts
  | nil | bool | int | float | text | keyword | symbol | code => rfl
  | namespaceRef | varRef | function => cases notObject

theorem toJson_ok_iff_isPlain (value : Value) :
    (∃ json, value.toJson = .ok json) ↔ value.isPlain = true := by
  refine ⟨fun written => ?_, toJson_of_isPlain value⟩
  induction value using induction_parts with
  | whole value ih =>
  obtain ⟨notObject, parts⟩ := toJson_ok_iff_parts.1 written
  exact isPlain_of_parts notObject fun step part stepped =>
    ih step part stepped (parts step part stepped)

end Serialization

end Value

namespace Document

def contents (document : Document) : Value :=
  .map (document.namespaces.entries.map fun space =>
    (space.1, .seq (space.2.map fun record => .map record.fields.entries)))

theorem recordsToJson_eq (records : List Record) : recordsToJson records =
    (Value.seq (records.map fun record => .map record.fields.entries)).toJson := by
  rw [recordsToJson, Value.toJson, Value.itemsToJson_eq_mapM, List.mapM_map]
  rfl

theorem namespacesToJson_eq (document : Document) :
    namespacesToJson document.namespaces = document.contents.toJson := by
  rw [contents, Value.toJson, Value.entriesToJson_eq_mapM, List.mapM_map, namespacesToJson]
  congr 2
  funext space
  rw [namespaceToJson, recordsToJson_eq]
  rfl

theorem contents_sorted {document : Document}
    (sorted : ∀ space ∈ document.namespaces.entries, ∀ record ∈ space.2, record.Sorted) :
    document.contents.Sorted := by
  refine ⟨ordered_of_keys (by simp) document.namespaces.ordered, ?_⟩
  rw [Value.entriesSorted_iff, List.forall_mem_map]
  intro space member
  refine (Value.itemsSorted_iff _).2 (List.forall_mem_map.2 fun record listed => ?_)
  exact ⟨record.fields.ordered, sorted space member record listed⟩

theorem contents_isPlain (document : Document) : document.contents.isPlain = true ↔ document.Plain := by
  simp only [contents, Value.isPlain, Value.entriesPlain_iff, Value.allPlain_iff, List.forall_mem_map,
    Plain]

theorem toJson_eq_error_iff {document : Document} {culprit : Value} :
    document.toJson = .error culprit ↔ document.contents.toJson = .error culprit := by
  rw [toJson, exceptMap_eq_error_iff, namespacesToJson_eq]

theorem toJson_ok_iff_plain (document : Document) :
    (∃ json, document.toJson = .ok json) ↔ document.Plain := by
  rw [toJson, exists_exceptMap_ok_iff, namespacesToJson_eq, Value.toJson_ok_iff_isPlain,
    contents_isPlain]

theorem not_plain_iff (document : Document) : ¬ document.Plain ↔
    ∃ space ∈ document.namespaces.entries, ∃ record ∈ space.2,
      ∃ field ∈ record.fields.entries, field.2.isPlain = false := by
  simp only [Plain, Classical.not_forall, exists_prop, Bool.not_eq_true]

end Document

/-- Where its file can be made, a snapshot is written just when its document has a
JSON. -/
theorem Snapshot.write_created {tree made grown : FileTree} {document : Document} {directory : Path}
    (makes : tree.makeDirectories directory = .ok made)
    (created : made.write (directory.join ⟨document.fileName⟩) .empty = .ok grown) (level : Nat) :
    (∃ culprit, document.toJson = .error culprit ∧ (write tree document directory level).value =
      .error (.unserializable (directory.join ⟨document.fileName⟩) culprit)) ∨
    ∃ json written, document.toJson = .ok json ∧
      (write tree document directory level).value =
        .ok (directory.join ⟨document.fileName⟩, written) := by
  have writable : ∃ written,
      made.write (directory.join ⟨document.fileName⟩) (contentOf document) = .ok written := by
    cases wrote : made.write (directory.join ⟨document.fileName⟩) (contentOf document) with
    | ok written => exact ⟨written, rfl⟩
    | error cause => cases created.symm.trans (FileTree.write_error wrote .empty)
  obtain ⟨written, wrote⟩ := writable
  unfold write
  simp only [makes, wrote, Logged.after]
  cases serialized : document.toJson with
  | error culprit => exact .inl ⟨culprit, rfl, rfl⟩
  | ok json => exact .inr ⟨json, written, rfl, rfl⟩

/-- A value has a JSON exactly when it is plain, and otherwise the error is the first
object in it. A snapshot whose file can be made fails exactly when some record holds a
value that is not plain, and the error is the first object of the document. -/
theorem json_exactly_of_plain :
    (∀ value : Value, (∃ text, value.toJson.map Json.render = .ok text) ↔ value.isPlain = true) ∧
    (∀ value culprit : Value, value.Sorted →
      (value.toJson = .error culprit ↔ ∃ way, value.First way culprit)) ∧
    ∀ (tree made grown : FileTree) (document : Document) (directory : Path) (level : Nat),
      tree.makeDirectories directory = .ok made →
      made.write (directory.join ⟨document.fileName⟩) .empty = .ok grown →
      ((∃ error, (Snapshot.write tree document directory level).value = .error error) ↔
        ∃ space ∈ document.namespaces.entries, ∃ record ∈ space.2,
          ∃ field ∈ record.fields.entries, field.2.isPlain = false) ∧
      ∀ error, (Snapshot.write tree document directory level).value = .error error →
        ∃ culprit, error = .unserializable (directory.join ⟨document.fileName⟩) culprit ∧
          ((∀ space ∈ document.namespaces.entries, ∀ record ∈ space.2, record.Sorted) →
            ∃ way, document.contents.First way culprit) := by
  refine ⟨fun value => ?_, fun value culprit sorted => Value.toJson_eq_error_iff sorted, ?_⟩
  · rw [exists_exceptMap_ok_iff, Value.toJson_ok_iff_isPlain]
  · intro tree made grown document directory level makes created
    rcases Snapshot.write_created makes created level with
      ⟨culprit, unserializable, failed⟩ | ⟨json, written, serialized, wrote⟩
    · have notPlain : ¬ document.Plain := by
        rw [← document.toJson_ok_iff_plain, unserializable]
        exact nofun
      refine ⟨iff_of_true ⟨_, failed⟩ (document.not_plain_iff.1 notPlain), fun error same => ?_⟩
      obtain rfl := Except.error.inj (failed.symm.trans same)
      refine ⟨culprit, rfl, fun sorted => ?_⟩
      exact Value.exists_first_of_error (Document.contents_sorted sorted)
        (Document.toJson_eq_error_iff.1 unserializable)
    · have noError (error : SnapshotError) :
          (Snapshot.write tree document directory level).value ≠ .error error := by
        rw [wrote]
        exact nofun
      refine ⟨iff_of_false (not_exists.2 noError) ?_, fun error failed => absurd failed (noError error)⟩
      rw [← document.not_plain_iff, Classical.not_not]
      exact document.toJson_ok_iff_plain.1 ⟨json, serialized⟩

/-- The var inside the first entry of the map comes before the namespace beside it,
and a document that holds both is refused over the var. -/
theorem var_refused_before_namespace :
    let owned : Value := .map [("owner", .seq [.nil, .varRef "demo.core" "P"]),
      ("space", .namespaceRef "demo.core")]
    let document : Document :=
      { (default : Document) with namespaces := Dict.ofList [("demo.bad", [⟨Dict.ofList [("tags", owned)]⟩])] }
    owned.Sorted ∧ owned.toJson = .error (.varRef "demo.core" "P") ∧
      (∃ way, owned.First way (.varRef "demo.core" "P")) ∧
      (∃ made grown, (⟨.directory [], []⟩ : FileTree).makeDirectories ⟨"out"⟩ = .ok made ∧
        made.write (Path.join ⟨"out"⟩ ⟨document.fileName⟩) .empty = .ok grown) ∧
      (Snapshot.write ⟨.directory [], []⟩ document ⟨"out"⟩ 6).value =
        .error (.unserializable ⟨"out/-.json.gz"⟩ (.varRef "demo.core" "P")) := by
  intro owned document
  obtain ⟨-, first, snapshot⟩ := json_exactly_of_plain
  have sorted : owned.Sorted := by
    refine ⟨?_, ⟨trivial, trivial, trivial⟩, trivial, trivial⟩
    unfold Ordered
    decide +kernel
  have failed : owned.toJson = .error (.varRef "demo.core" "P") := rfl
  have creates : ((⟨.directory [], []⟩ : FileTree).makeDirectories ⟨"out"⟩).toOption.any (fun made =>
      (made.write (Path.join ⟨"out"⟩ ⟨document.fileName⟩) .empty).toOption.isSome) = true := by
    decide +kernel
  obtain ⟨made, makes, creates⟩ := (Option.any_eq_true _ _).1 creates
  obtain ⟨grown, created⟩ := Option.isSome_iff_exists.1 creates
  have makes := eq_ok_of_toOption makes
  have created := eq_ok_of_toOption created
  refine ⟨sorted, failed, (first owned _ sorted).1 failed, ⟨made, grown, makes, created⟩, ?_⟩
  obtain ⟨fails, culprits⟩ := snapshot _ made grown document ⟨"out"⟩ 6 makes created
  have held : ∃ space ∈ document.namespaces.entries, ∃ record ∈ space.2,
      ∃ field ∈ record.fields.entries, field.2.isPlain = false :=
    ⟨_, List.mem_cons_self, _, List.mem_cons_self, ("tags", owned), List.mem_cons_self, rfl⟩
  obtain ⟨error, refused⟩ := fails.2 held
  obtain ⟨culprit, rfl, firstOf⟩ := culprits error refused
  have records : ∀ space ∈ document.namespaces.entries, ∀ record ∈ space.2, record.Sorted := by
    intro space inDocument record inSpace
    obtain rfl := List.mem_singleton.1 inDocument
    obtain rfl := List.mem_singleton.1 inSpace
    exact ⟨sorted, trivial⟩
  obtain ⟨way, named⟩ := firstOf records
  have sortedContents := Document.contents_sorted records
  have same : document.contents.toJson = .error (.varRef "demo.core" "P") := rfl
  obtain ⟨_, expected⟩ := (first _ _ sortedContents).1 same
  have path : Path.join ⟨"out"⟩ ⟨document.fileName⟩ = ⟨"out/-.json.gz"⟩ := by decide +kernel
  rwa [named.unique sortedContents expected, path] at refused

end VarDoc
