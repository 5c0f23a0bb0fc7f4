import VarDoc.Proofs.FiniteDoubles
import VarDoc.Proofs.JsonDecoding
import VarDoc.Proofs.SnapshotReading

/-! Snapshots that were read are stable. What a reader makes of any text it
accepts is in order, has a JSON no deeper than the reader allows, and comes back
from storage as it is. -/

set_option autoImplicit false

namespace VarDoc

namespace Value

/-- What storage gives back: in order, unchanged by storage, and with a JSON that
nests at most so deep. -/
structure Settled (value : Value) (limit : Nat) : Prop where
  sorted : value.Sorted
  kept : value.stored = value
  written : ∃ json, value.toJson = .ok json ∧ json.depth ≤ limit

theorem Settled.depth {value : Value} {limit : Nat} (settled : value.Settled limit) {json : Json}
    (made : value.toJson = .ok json) : json.depth ≤ limit := by
  obtain ⟨same, madeSame, shallow⟩ := settled.written
  rw [made] at madeSame
  exact Except.ok.inj madeSame ▸ shallow

section Several

variable {limit : Nat}

theorem items_of_settled {items : List Value} (each : ∀ item ∈ items, item.Settled limit) :
    ItemsSorted items ∧ storedItems items = items := by
  induction items with
  | nil => exact ⟨trivial, rfl⟩
  | cons item rest ih =>
    rw [List.forall_mem_cons] at each
    obtain ⟨sorted, kept⟩ := ih each.2
    exact ⟨⟨each.1.sorted, sorted⟩, by rw [storedItems, each.1.kept, kept]⟩

theorem Settled.seq {items : List Value} (each : ∀ item ∈ items, item.Settled limit) :
    (Value.seq items).Settled (limit + 1) := by
  obtain ⟨sorted, kept⟩ := items_of_settled each
  refine ⟨sorted, by rw [stored, kept], ?_⟩
  obtain ⟨jsons, made⟩ := exists_mapM_ok fun item member =>
    (each item member).written.imp fun _ written => written.1
  refine ⟨.array jsons, by rw [toJson, itemsToJson_eq_mapM, made]; rfl, ?_⟩
  refine Nat.succ_le_succ (Json.itemsDepth_le_iff.2 fun json member => ?_)
  obtain ⟨item, found, written⟩ := exists_of_mem_mapM_ok made member
  exact (each item found).depth written

theorem entries_of_settled {entries : List (String × Value)}
    (each : ∀ entry ∈ entries, entry.2.Settled limit) :
    EntriesSorted entries ∧ storedEntries entries = entries := by
  induction entries with
  | nil => exact ⟨trivial, rfl⟩
  | cons entry rest ih =>
    rw [List.forall_mem_cons] at each
    obtain ⟨sorted, kept⟩ := ih each.2
    exact ⟨⟨each.1.sorted, sorted⟩, by rw [storedEntries, each.1.kept, kept]⟩

theorem entriesToJson_of_settled {entries : List (String × Value)}
    (each : ∀ entry ∈ entries, entry.2.Settled limit) :
    ∃ fields, entriesToJson entries = .ok fields ∧ Json.fieldsDepth fields ≤ limit := by
  have written : ∀ entry ∈ entries, ∃ field, entryToJson entry = .ok field := by
    intro entry member
    obtain ⟨json, made, -⟩ := (each entry member).written
    exact ⟨(entry.1, json), by rw [entryToJson, made]; rfl⟩
  obtain ⟨fields, made⟩ := exists_mapM_ok written
  refine ⟨fields, by rw [entriesToJson_eq_mapM, made], ?_⟩
  refine Json.fieldsDepth_le_iff.2 fun field member => ?_
  obtain ⟨entry, found, madeField⟩ := exists_of_mem_mapM_ok made member
  obtain ⟨json, madeJson, rfl⟩ := exceptMap_eq_ok_iff.1 madeField
  exact (each entry found).depth madeJson

theorem Settled.map {entries : List (String × Value)} (ordered : Ordered entries)
    (each : ∀ entry ∈ entries, entry.2.Settled limit) : (Value.map entries).Settled (limit + 1) := by
  obtain ⟨sorted, kept⟩ := entries_of_settled each
  obtain ⟨fields, made, shallow⟩ := entriesToJson_of_settled each
  exact ⟨⟨ordered, sorted⟩, by rw [stored, kept], .object fields, by rw [toJson, made]; rfl,
    Nat.succ_le_succ shallow⟩

end Several

/-- A number is a 64-bit integer or a finite double, also where it was a whole
number too large for the integer. -/
theorem settled_ofNumber (number : Json.Number) (limit : Nat) : (ofNumber number).Settled limit := by
  have finiteSettled (value : Float) (finite : value.isFinite = true) :
      (Value.float value).Settled limit :=
    ⟨trivial, if_pos finite, .ofFloat value, rfl, by
      rw [Json.ofFloat, dif_pos finite]
      exact Nat.zero_le _⟩
  cases number with
  | whole value fits =>
    rw [ofNumber]
    split
    · exact ⟨trivial, rfl, _, rfl, Nat.zero_le _⟩
    · apply finiteSettled
      apply Decimal.isFinite_nearest <;> omega
  | real value finite => exact finiteSettled value finite

theorem ordered_ofJsonFields {fields : List (String × Json)} (ordered : Ordered fields) :
    Ordered (ofJsonFields fields) := by
  refine ordered_of_keys ?_ ordered
  rw [ofJsonFields_eq, List.map_map]
  rfl

theorem settled_ofJson {json : Json} {limit : Nat} (tidy : json.Tidy limit) :
    (ofJson json).Settled limit := by
  induction json using Json.inductionOn generalizing limit with
  | null => exact ⟨trivial, rfl, .null, rfl, tidy.depth⟩
  | bool value => exact ⟨trivial, rfl, .bool value, rfl, tidy.depth⟩
  | number value => exact settled_ofNumber value limit
  | string text => exact ⟨trivial, rfl, .string text, rfl, tidy.depth⟩
  | array items ih =>
    obtain ⟨inner, rfl, each⟩ := tidy.items
    rw [ofJson, ofJsonItems_eq]
    refine .seq fun value member => ?_
    obtain ⟨item, found, rfl⟩ := List.mem_map.1 member
    exact ih item found (each item found)
  | object fields ih =>
    obtain ⟨inner, rfl, ordered, each⟩ := tidy.fields
    refine .map (ordered_ofJsonFields ordered) fun entry member => ?_
    rw [ofJsonFields_eq] at member
    obtain ⟨field, found, rfl⟩ := List.mem_map.1 member
    exact ih field found (each field found)

end Value

namespace Record

def Settled (record : Record) (limit : Nat) : Prop :=
  record.fields.All fun _ value => value.Settled limit

theorem settled_ofJson? {json : Json} {record : Record} {limit : Nat}
    (made : ofJson? json = some record) (tidy : json.Tidy (limit + 1)) : record.Settled limit := by
  cases json with
  | object fields =>
    obtain rfl := Option.some.inj made
    obtain ⟨inner, same, -, each⟩ := tidy.fields
    obtain rfl := Nat.succ.inj same
    refine Dict.All.ofList fun entry member => ?_
    rw [Value.ofJsonFields_eq] at member
    obtain ⟨field, found, rfl⟩ := List.mem_map.1 member
    exact Value.settled_ofJson (each field found)
  | null | bool | number | string | array => contradiction

section

variable {record : Record} {limit : Nat} (settled : record.Settled limit)
include settled

theorem Settled.sorted : record.Sorted := (Value.entries_of_settled settled).1

theorem Settled.kept : record.stored = record := by
  have same := Dict.map_eq_self fun entry member => (settled entry member).kept
  exact congrArg Record.mk same

theorem Settled.written : ∃ json, record.toJson = .ok json ∧ json.depth ≤ limit + 1 := by
  obtain ⟨fields, made, shallow⟩ := Value.entriesToJson_of_settled settled
  exact ⟨.object fields, by rw [toJson, made]; rfl, Nat.succ_le_succ shallow⟩

theorem Settled.depth {json : Json} (made : record.toJson = .ok json) : json.depth ≤ limit + 1 := by
  obtain ⟨same, madeSame, shallow⟩ := settled.written
  rw [made] at madeSame
  exact Except.ok.inj madeSame ▸ shallow

end

end Record

namespace Snapshot

theorem text_of_read {tree : FileTree} {path : Path} {document : Document}
    (found : read tree path = .ok document) : ∃ text, Document.read? text = some document := by
  unfold read at found
  split at found
  · contradiction
  · contradiction
  · split at found
    next decoded =>
      obtain rfl := Except.ok.inj found
      obtain ⟨text, -, accepted⟩ := Option.bind_eq_some_iff.1 decoded
      exact ⟨text, accepted⟩
    next => contradiction

theorem read_of_node {tree : FileTree} {path : Path} {text : String} {document : Document}
    (found : tree.node path = .ok (.file (encode text)))
    (accepted : Document.read? text = some document) : read tree path = .ok document := by
  rw [read, found]
  dsimp only
  rw [decode?_encode, Option.bind_some, accepted]

end Snapshot

namespace Document

open Json (Raw decodeString?)

def TidyIfAny (value : Option Json) (limit : Nat) : Prop :=
  ∀ json ∈ value, json.Tidy limit ∧ json ≠ .null

/-- What storage gave back, with at least three levels around each field of a
record. -/
structure Settled (document : Document) (limit : Nat) : Prop where
  scm : TidyIfAny document.scm (limit + 3)
  license : TidyIfAny document.license (limit + 3)
  records : document.namespaces.All fun _ records => ∀ record ∈ records, record.Settled limit

theorem tidy_of_optionalJson? {raw : Raw} {value : Option Json} {limit : Nat}
    (read : optionalJson? raw = some value) (shallow : raw.depth ≤ limit) :
    TidyIfAny value limit := by
  intro json found
  have denotes : raw.json? = some json ∧ raw ≠ .null := by
    unfold optionalJson? at read
    split at read
    · obtain rfl := Option.some.inj read
      contradiction
    next notNull =>
      obtain ⟨same, denotes, rfl⟩ := Option.map_eq_some_iff.1 read
      obtain rfl := Option.some.inj found
      exact ⟨denotes, notNull⟩
  refine ⟨(Raw.denotesTidy raw json denotes.1).mono shallow, ?_⟩
  rintro rfl
  exact denotes.2 (Raw.eq_null_of_json? denotes.1)

theorem settled_of_records? {raw : Raw} {records : List Record} {limit : Nat}
    (read : records? raw = some records) (shallow : raw.depth ≤ limit + 2) :
    ∀ record ∈ records, record.Settled limit := by
  intro record member
  cases raw with
  | array items =>
    obtain ⟨item, found, made⟩ := exists_of_mem_mapM_some read member
    obtain ⟨json, denotes, madeRecord⟩ := Option.bind_eq_some_iff.1 made
    have inner : item.depth ≤ limit + 1 :=
      Raw.itemsDepth_le_iff.1 (Nat.le_of_succ_le_succ shallow) item found
    exact Record.settled_ofJson? madeRecord ((Raw.denotesTidy item json denotes).mono inner)
  | null | bool | number | string | object => contradiction

theorem settled_of_namespaces? {raw : Raw} {namespaces : Dict (List Record)} {limit : Nat}
    (read : namespaces? raw = some namespaces) (shallow : raw.depth ≤ limit + 3) :
    namespaces.All fun _ records => ∀ record ∈ records, record.Settled limit := by
  cases raw with
  | object fields =>
    obtain ⟨entries, decoded, made⟩ := Option.bind_eq_some_iff.1 read
    obtain rfl := Option.some.inj made
    refine Dict.All.ofList fun entry member => ?_
    obtain ⟨field, found, made⟩ := exists_of_mem_mapM_some decoded member
    obtain ⟨name, -, made⟩ := Option.bind_eq_some_iff.1 made
    obtain ⟨records, readRecords, made⟩ := Option.bind_eq_some_iff.1 made
    obtain rfl := Option.some.inj made
    exact settled_of_records? readRecords
      (Raw.fieldsDepth_le_iff.1 (Nat.le_of_succ_le_succ shallow) field found)
  | null | bool | number | string | array => contradiction

/-- What holds of a missing field and of every field that is read holds of what
is found. -/
theorem field?_cases {α : Type} {fields : List (String × Raw)} {key : String} {missing found : α}
    {read? : Raw → Option α} (property : α → Prop)
    (read : field? fields key missing read? = some found) (absent : property missing)
    (present : ∀ raw, raw.depth ≤ 126 → read? raw = some found → property found) : property found := by
  unfold field? at read
  split at read
  · exact Option.some.inj read ▸ absent
  next raw known =>
    obtain ⟨same, shallow, readSame⟩ := Option.bind_eq_some_iff.1 read
    obtain ⟨short, rfl⟩ := Raw.shallow?_eq_some_iff.1 shallow
    rw [Nat.add_comm] at short
    exact present raw (Nat.le_of_succ_le_succ short) readSame

theorem settled_of_ofFields? {fields : List (String × Raw)} {document : Document}
    (read : ofFields? fields = some document) : document.Settled 123 := by
  obtain ⟨name, -, read⟩ := Option.bind_eq_some_iff.1 read
  obtain ⟨url, -, read⟩ := Option.bind_eq_some_iff.1 read
  obtain ⟨description, -, read⟩ := Option.bind_eq_some_iff.1 read
  obtain ⟨version, -, read⟩ := Option.bind_eq_some_iff.1 read
  obtain ⟨group, -, read⟩ := Option.bind_eq_some_iff.1 read
  obtain ⟨scm, readScm, read⟩ := Option.bind_eq_some_iff.1 read
  obtain ⟨license, readLicense, read⟩ := Option.bind_eq_some_iff.1 read
  obtain ⟨namespaces, readNamespaces, read⟩ := Option.bind_eq_some_iff.1 read
  obtain rfl := Option.some.inj read
  constructor
  · exact field?_cases (TidyIfAny · 126) readScm nofun fun raw shallow found =>
      tidy_of_optionalJson? found shallow
  · exact field?_cases (TidyIfAny · 126) readLicense nofun fun raw shallow found =>
      tidy_of_optionalJson? found shallow
  · exact field?_cases (Dict.All _) readNamespaces Dict.All.empty fun raw shallow found =>
      settled_of_namespaces? found shallow

/-- Whatever text a document is read from, storage keeps the document. -/
theorem settled_of_read? {text : String} {document : Document} (read : read? text = some document) :
    document.Settled 123 := by
  obtain ⟨raw, -, made⟩ := Option.bind_eq_some_iff.1 read
  cases raw with
  | object fields =>
    obtain ⟨known, -, accepted⟩ := Option.bind_eq_some_iff.1 made
    exact settled_of_ofFields? accepted
  | array items =>
    rw [ofRaw?] at made
    split at made
    · exact settled_of_ofFields? made
    · contradiction
  | null | bool | number | string => contradiction

section

variable {document : Document} {limit : Nat} (settled : document.Settled limit)
include settled

theorem Settled.sorted : document.Sorted where
  scm json found := (settled.scm json found).1.sorted
  license json found := (settled.license json found).1.sorted
  records entry found record member := (settled.records entry found record member).sorted

theorem Settled.kept : document.stored = document := by
  have present {value : Option Json} (tidy : TidyIfAny value (limit + 3)) :
      unlessNull value = value := by
    cases value with
    | none => rfl
    | some json =>
      cases json with
      | null => exact absurd rfl (tidy .null rfl).2
      | bool | number | string | array | object => rfl
  have records : document.namespaces.map (·.map Record.stored) = document.namespaces := by
    refine Dict.map_eq_self fun entry found => ?_
    have each : ∀ record ∈ entry.2, record.stored = id record := fun record member =>
      (settled.records entry found record member).kept
    exact (List.map_congr_left each).trans (List.map_id _)
  rw [stored, present settled.scm, present settled.license, records]

theorem Settled.namespacesToJson :
    ∃ json, namespacesToJson document.namespaces = .ok json ∧ json.depth ≤ limit + 3 := by
  have spaces : ∀ entry ∈ document.namespaces.entries,
      ∃ json, recordsToJson entry.2 = .ok json ∧ json.depth ≤ limit + 2 := by
    intro entry found
    obtain ⟨jsons, made⟩ := exists_mapM_ok fun record member =>
      (settled.records entry found record member).written.imp fun _ written => written.1
    refine ⟨.array jsons, by rw [recordsToJson, made]; rfl, ?_⟩
    refine Nat.succ_le_succ (Json.itemsDepth_le_iff.2 fun json member => ?_)
    obtain ⟨record, inEntry, written⟩ := exists_of_mem_mapM_ok made member
    exact (settled.records entry found record inEntry).depth written
  have written : ∀ entry ∈ document.namespaces.entries, ∃ field, namespaceToJson entry = .ok field := by
    intro entry found
    obtain ⟨json, made, -⟩ := spaces entry found
    exact ⟨(entry.1, json), by rw [namespaceToJson, made]; rfl⟩
  obtain ⟨fields, made⟩ := exists_mapM_ok written
  refine ⟨.object fields, by rw [Document.namespacesToJson, made]; rfl, ?_⟩
  refine Nat.succ_le_succ (Json.fieldsDepth_le_iff.2 fun field member => ?_)
  obtain ⟨entry, found, madeField⟩ := exists_of_mem_mapM_ok made member
  obtain ⟨json, madeJson, rfl⟩ := exceptMap_eq_ok_iff.1 madeField
  obtain ⟨same, madeSame, shallow⟩ := spaces entry found
  rw [madeJson] at madeSame
  exact Except.ok.inj madeSame ▸ shallow

theorem Settled.headerFields : ∀ field ∈ document.headerFields, field.2.depth ≤ limit + 3 := by
  have text (value : Option String) : ∀ json ∈ value.map Json.string, json.depth ≤ limit + 3 := by
    intro json found
    obtain ⟨content, -, rfl⟩ := Option.map_eq_some_iff.1 found
    exact Nat.zero_le _
  intro field member
  obtain ⟨entry, found, made⟩ := List.mem_filterMap.1 member
  obtain ⟨json, known, rfl⟩ := Option.map_eq_some_iff.1 made
  have each : ∀ entry ∈ document.headerValues, ∀ json ∈ entry.2, json.depth ≤ limit + 3 := by
    simp only [headerValues, List.forall_mem_cons]
    exact ⟨text _, text _, text _, text _, text _,
      fun json found => (settled.scm json found).1.depth,
      fun json found => (settled.license json found).1.depth, nofun⟩
  exact each entry found json known

theorem Settled.toJson : ∃ json, document.toJson = .ok json ∧ json.depth ≤ limit + 4 := by
  obtain ⟨namespaces, made, shallow⟩ := settled.namespacesToJson
  refine ⟨_, by rw [Document.toJson, made]; rfl, ?_⟩
  refine Nat.succ_le_succ (Json.fieldsDepth_le_iff.2 fun field member => ?_)
  rcases List.mem_append.1 member with header | last
  · exact settled.headerFields field header
  · rw [List.mem_singleton.1 last]
    exact shallow

end

end Document

/-- A document that was read from any text has a JSON. The text of that JSON is
read as the same document, and so is every snapshot that the document is written
to, which holds just that text. -/
theorem decoded_snapshot_is_stable {tree : FileTree} {path : Path} {document : Document}
    (read : Snapshot.read tree path = .ok document) (doubles : document.ExactDoubles) :
    ∃ json, document.toJson = .ok json ∧ Document.read? json.render = some document ∧
      ∀ (other written : FileTree) (directory place : Path) (level : Nat),
        (Snapshot.write other document directory level).value = .ok (place, written) →
          written.node place = .ok (.file (Snapshot.encode json.render)) ∧
          Snapshot.read written place = .ok document := by
  obtain ⟨text, accepted⟩ := Snapshot.text_of_read read
  have settled := Document.settled_of_read? accepted
  obtain ⟨json, made, shallow⟩ := settled.toJson
  have fits : json.depth ≤ Json.Raw.depthLimit := shallow
  have again : Document.read? json.render = some document := by
    rw [Document.read?_render made settled.sorted (doubles.legible made), if_pos fits, settled.kept]
  refine ⟨json, made, again, ?_⟩
  intro other written directory place level wrote
  obtain ⟨same, madeSame, found⟩ := Snapshot.node_of_write wrote
  obtain rfl := Except.ok.inj (made.symm.trans madeSame)
  exact ⟨found, Snapshot.read_of_node found again⟩

namespace Json

deriving instance DecidableEq for Number

def asNumber? : Json → Option Number
  | .number value => some value
  | _ => none

instance (number : Number) : Decidable number.ReadsBack :=
  decidable_of_iff ((Json.read? number.render).bind asNumber? = some number) (by
    rw [Number.ReadsBack, Option.bind_eq_some_iff]
    constructor
    · rintro ⟨json, read, same⟩
      cases json with
      | number value => rw [read, Option.some.inj same]
      | null | bool | string | array | object => contradiction
    · exact fun read => ⟨.number number, read, rfl⟩)

end Json

/-- A document as an array, with a repeated field, a repeated namespace, and
whole numbers too large for a signed 64-bit integer. -/
def positionalText : String :=
  "[\"demo\",null,null,\"1.0\",null,null,\x7b\"b\":1,\"a\":9223372036854775808,\"b\":null\x7d," ++
    "\x7b\"n\":[],\"n\":[\x7b\"size\":9223372036854775808,\"name\":\"x\"\x7d]\x7d]"

def nestedArrays : Nat → Json
  | 0 => .null
  | depth + 1 => .array [nestedArrays depth]

/-- A document with a field that it does not know, which is deeper than any that it
knows may be. -/
def foreignText : String :=
  (Json.object [("later", nestedArrays 200), ("url", .null), ("namespaces", .object [])]).render

/-- The positional text is written again as an object in order, with the large
number of the record as a double; the other text loses the field that is not known.
Both stay as they are from then on. -/
theorem odd_snapshots_are_stable :
    let written (text rendered : String) : Prop := ∃ document json,
      Snapshot.read ⟨.directory [("old.gz", .file (Snapshot.encode text))], []⟩ ⟨"old.gz"⟩ =
        .ok document ∧ document.ExactDoubles ∧ document.toJson = .ok json ∧ json.render = rendered ∧
      Document.read? json.render = some document
    written positionalText ("\x7b\"name\":\"demo\",\"version\":\"1.0\"," ++
      "\"license\":\x7b\"a\":9223372036854775808,\"b\":null\x7d," ++
      "\"namespaces\":\x7b\"n\":[\x7b\"name\":\"x\",\"size\":9.223372036854776e+18\x7d]\x7d\x7d") ∧
    written foreignText "\x7b\"namespaces\":\x7b\x7d\x7d" := by
  intro written
  have settles (text rendered : String) (tried : (Document.read? text).any (fun document =>
      document.toJson.toOption.any fun json => (json.render == rendered) &&
        decide (∀ number ∈ json.numbers, number.ReadsBack)) = true) : written text rendered := by
    obtain ⟨document, found, tried⟩ := (Option.any_eq_true _ _).1 tried
    obtain ⟨json, madeJson, tried⟩ := (Option.any_eq_true _ _).1 tried
    obtain ⟨same, numbers⟩ := Bool.and_eq_true_iff.1 tried
    have made : document.toJson = .ok json := eq_ok_of_toOption madeJson
    have read : Snapshot.read
        ⟨.directory [("old.gz", .file (Snapshot.encode text))], []⟩ ⟨"old.gz"⟩ = .ok document := by
      have node (content : ByteArray) : FileTree.node ⟨.directory [("old.gz", .file content)], []⟩
        ⟨"old.gz"⟩ = .ok (.file content) := rfl
      exact Snapshot.read_of_node (node _) found
    have doubles : document.ExactDoubles := by
      intro other madeOther value finite member
      obtain rfl := Except.ok.inj (made.symm.trans madeOther)
      exact of_decide_eq_true numbers _ member
    obtain ⟨other, madeOther, again, -⟩ := decoded_snapshot_is_stable read doubles
    obtain rfl := Except.ok.inj (made.symm.trans madeOther)
    exact ⟨document, json, read, doubles, made, beq_iff_eq.1 same, again⟩
  refine ⟨settles _ _ (by decide +kernel), settles _ _ ?_⟩
  rw [foreignText, Document.read?_unknown (by decide)]
  decide +kernel

end VarDoc
