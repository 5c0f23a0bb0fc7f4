import VarDoc.Proofs.FiniteDoubles
import VarDoc.Proofs.JsonDecoding
import VarDoc.Proofs.Storable
import VarDoc.Proofs.StoredValue

/-! Normalized records. Normalization works on each field by itself and leaves
alone what it has made, also after that was stored and read back. -/

set_option autoImplicit false

namespace VarDoc

mutual

theorem Form.equal_self : ∀ form : Form, form.equal form = true
  | .atom leaf span metadata => by simp [Form.equal, Form.equalPairs_self metadata]
  | .group shape items span metadata => by
    simp [Form.equal, Form.equalAll_self items, Form.equalPairs_self metadata]
  | .map entries span metadata => by
    simp [Form.equal, Form.equalPairs_self entries, Form.equalPairs_self metadata]
  | .marked mark inner span metadata => by
    simp [Form.equal, Form.equal_self inner, Form.equalPairs_self metadata]

theorem Form.equalAll_self : ∀ forms : List Form, Form.equalAll forms forms = true
  | [] => by rw [Form.equalAll]
  | form :: rest => by rw [Form.equalAll, Form.equal_self form, Form.equalAll_self rest]; rfl

theorem Form.equalPairs_self : ∀ pairs : List (Form × Form), Form.equalPairs pairs pairs = true
  | [] => by rw [Form.equalPairs]
  | (key, value) :: rest => by
    rw [Form.equalPairs, Form.equal_self key, Form.equal_self value, Form.equalPairs_self rest]
    rfl

end

namespace Value

mutual

def hasNaN : Value → Bool
  | .float value => value.isNaN
  | .seq items => itemsHaveNaN items
  | .map entries => entriesHaveNaN entries
  | _ => false

def itemsHaveNaN : List Value → Bool
  | [] => false
  | item :: rest => item.hasNaN || itemsHaveNaN rest

def entriesHaveNaN : List (String × Value) → Bool
  | [] => false
  | (_, value) :: rest => value.hasNaN || entriesHaveNaN rest

end

mutual

theorem equal_self : ∀ value : Value, value.hasNaN = false → value.equal value = true
  | .nil, _ => by rw [equal]
  | .bool _, _ | .int _, _ | .text _, _ | .keyword _, _ | .symbol _, _ | .namespaceRef _, _
  | .varRef _ _, _ => by simp [equal]
  | .float value, number => by
    rw [hasNaN] at number
    rw [equal]
    exact Decimal.beq_self number
  | .seq items, number => by
    rw [hasNaN] at number
    rw [equal, equalItems_self items number]
  | .map entries, number => by
    rw [hasNaN] at number
    rw [equal, equalEntries_self entries number]
  | .code form, _ | .function form, _ => by
    rw [equal]
    exact form.equal_self

theorem equalItems_self : ∀ items : List Value, itemsHaveNaN items = false → equalItems items items = true
  | [], _ => by rw [equalItems]
  | item :: rest, numbers => by
    rw [itemsHaveNaN, Bool.or_eq_false_iff] at numbers
    rw [equalItems, equal_self item numbers.1, equalItems_self rest numbers.2]
    rfl

theorem equalEntries_self : ∀ entries : List (String × Value), entriesHaveNaN entries = false →
    equalEntries entries entries = true
  | [], _ => by rw [equalEntries]
  | (key, value) :: rest, numbers => by
    rw [entriesHaveNaN, Bool.or_eq_false_iff] at numbers
    rw [equalEntries, equal_self value numbers.1, equalEntries_self rest numbers.2, beq_self_eq_true]
    rfl

end

theorem itemsHaveNaN_eq_false_iff {items : List Value} :
    itemsHaveNaN items = false ↔ ∀ item ∈ items, item.hasNaN = false := by
  induction items with
  | nil => simp [itemsHaveNaN]
  | cons item rest ih => simp [itemsHaveNaN, ih]

theorem entriesHaveNaN_eq_false_iff {entries : List (String × Value)} :
    entriesHaveNaN entries = false ↔ ∀ entry ∈ entries, entry.2.hasNaN = false := by
  induction entries with
  | nil => simp [entriesHaveNaN]
  | cons entry rest ih => simp [entriesHaveNaN, ih]

theorem hasNaN_ofNumber (number : Json.Number) : (ofNumber number).hasNaN = false := by
  cases number with
  | real value finite => exact Decimal.isNaN_of_isFinite finite
  | whole value fits =>
    rw [ofNumber]
    split
    · rfl
    next large =>
      have finite := @Decimal.isFinite_nearest value.toNat (by omega) (by omega)
      exact Decimal.isNaN_of_isFinite finite

theorem hasNaN_ofJson (json : Json) : (ofJson json).hasNaN = false := by
  induction json using Json.inductionOn with
  | null | bool | string => rfl
  | number value => exact hasNaN_ofNumber value
  | array items each =>
    rw [ofJson, hasNaN, ofJsonItems_eq, itemsHaveNaN_eq_false_iff]
    exact List.forall_mem_map.2 each
  | object fields each =>
    rw [ofJson, hasNaN, ofJsonFields_eq, entriesHaveNaN_eq_false_iff]
    exact List.forall_mem_map.2 each

end Value

namespace Record

def textKeys : List String := ["ns", "name", "tag"]

section Fields

variable {key : String}

theorem normalizeField_dropped (dropped : key ∈ droppedKeys) (value : Value) :
    normalizeField key value = none := by
  unfold normalizeField
  exact if_pos (List.contains_iff_mem.2 dropped)

theorem normalizeField_nilTag : normalizeField "tag" .nil = none := rfl

theorem normalizeField_text {value : Value} (textual : key ∈ textKeys)
    (present : ¬ (key = "tag" ∧ value = .nil)) :
    normalizeField key value = some (.text value.toText) := by
  simp only [textKeys, List.mem_cons, List.not_mem_nil, or_false] at textual
  rcases textual with rfl | rfl | rfl
  · rfl
  · rfl
  · cases value with
    | nil => exact absurd ⟨rfl, rfl⟩ present
    | _ => rfl

theorem normalizeField_arglists (value : Value) :
    normalizeField "arglists" value = some (.seq ((printedArglists value).map .text)) := rfl

theorem normalizeField_other (kept : key ∉ droppedKeys) (plain : key ∉ textKeys)
    (other : key ≠ "arglists") (value : Value) : normalizeField key value = some value := by
  simp only [textKeys, List.mem_cons, List.not_mem_nil, or_false, not_or] at plain
  obtain ⟨ns, name, tag⟩ := plain
  simp [normalizeField, kept, ns, name, tag, other]

end Fields

/-- What may stand under a key in a normalized record. -/
structure Normal (key : String) (value : Value) : Prop where
  kept : key ∉ droppedKeys
  text : key ∈ textKeys → ∃ content, value = .text content
  texts : key = "arglists" → ∃ contents : List String, value = .seq (contents.map .text)

/-- A field is dropped, or it becomes one that may stand there. -/
theorem normal_of_normalizeField {key : String} {value stored : Value}
    (made : normalizeField key value = some stored) : Normal key stored := by
  by_cases dropped : key ∈ droppedKeys
  · rw [normalizeField_dropped dropped] at made
    cases made
  by_cases nilTag : key = "tag" ∧ value = .nil
  · obtain ⟨rfl, rfl⟩ := nilTag
    cases made
  refine ⟨dropped, fun textual => ?_, ?_⟩
  · rw [normalizeField_text textual nilTag] at made
    cases made
    exact ⟨_, rfl⟩
  · rintro rfl
    cases made
    exact ⟨_, rfl⟩

theorem Normal.normalizeField_self {key : String} {value : Value} (normal : Normal key value) :
    normalizeField key value = some value := by
  by_cases textual : key ∈ textKeys
  · obtain ⟨content, rfl⟩ := normal.text textual
    exact normalizeField_text textual (by simp)
  by_cases arglists : key = "arglists"
  · obtain ⟨contents, rfl⟩ := normal.texts arglists
    subst arglists
    rw [normalizeField_arglists, printedArglists, List.map_map, List.map_map]
    rfl
  · exact normalizeField_other normal.kept textual arglists value

theorem get?_normalize (metadata : Metadata) (key : String) :
    (normalize metadata).get? key = (metadata.get? key).bind (normalizeField key) :=
  Dict.get?_filterMap normalizeField metadata key

theorem exists_of_mem_normalize {metadata : Metadata} {entry : String × Value}
    (member : entry ∈ (normalize metadata).fields.entries) :
    ∃ value, (entry.1, value) ∈ metadata.entries ∧ normalizeField entry.1 value = some entry.2 := by
  have found : (normalize metadata).get? entry.1 = some entry.2 := Dict.mem_entries_iff.1 member
  rw [get?_normalize] at found
  obtain ⟨value, raw, made⟩ := Option.bind_eq_some_iff.1 found
  exact ⟨value, Dict.mem_entries_iff.2 raw, made⟩

def IsNormal (record : Record) : Prop := record.fields.All Normal

theorem isNormal_normalize (metadata : Metadata) : (normalize metadata).IsNormal := by
  intro entry member
  obtain ⟨value, -, made⟩ := exists_of_mem_normalize member
  exact normal_of_normalizeField made

theorem IsNormal.normalize_self {record : Record} (normal : record.IsNormal) :
    normalize record.fields = record := by
  have same : (normalize record.fields).fields = record.fields := by
    apply Dict.eq_of_get?
    intro key
    change (normalize record.fields).get? key = _
    rw [get?_normalize]
    cases found : record.fields.get? key with
    | none => rfl
    | some value => exact (normal _ (Dict.mem_entries_iff.2 found)).normalizeField_self
  exact congrArg Record.mk same

/-- A key is lost with a runtime object, or with a tag that is nil. -/
theorem isSome_normalizeField_iff {key : String} {value : Value} :
    (normalizeField key value).isSome = true ↔ key ∉ droppedKeys ∧ ¬ (key = "tag" ∧ value = .nil) := by
  by_cases dropped : key ∈ droppedKeys
  · simp [normalizeField_dropped dropped, dropped]
  by_cases nilTag : key = "tag" ∧ value = .nil
  · obtain ⟨rfl, rfl⟩ := nilTag
    simp [normalizeField_nilTag]
  by_cases textual : key ∈ textKeys
  · simp only [normalizeField_text textual nilTag, dropped, nilTag, Option.isSome_some, not_false_iff,
      and_self]
  by_cases arglists : key = "arglists"
  · subst arglists
    simp [normalizeField_arglists, dropped]
  · simp only [normalizeField_other dropped textual arglists, dropped, nilTag, Option.isSome_some,
      not_false_iff, and_self]

end Record

namespace Value

theorem itemsToJson_texts (contents : List String) :
    itemsToJson (contents.map .text) = .ok (contents.map .string) := by
  rw [itemsToJson_eq_mapM, mapM_eq_ok_iff, List.map_map, List.map_map]
  rfl

end Value

theorem Json.json?_written_texts (contents : List String) :
    (Json.array (contents.map .string)).written.json? = some (.array (contents.map .string)) := by
  have each : ∀ item ∈ contents.map Json.string, item.written.json? = some item := by
    refine List.forall_mem_map.2 fun content _ => ?_
    rw [written, Raw.json?, decodeString?_escaped, Option.map_some]
  rw [written, Raw.json?, jsonItems?_eq each, Option.map_some]

namespace Record

section Storage

variable {key : String} {value : Value} {record : Record} {json back : Json}

theorem Normal.stored (normal : Normal key value) : Normal key value.stored where
  kept := normal.kept
  text textual := by
    obtain ⟨content, rfl⟩ := normal.text textual
    exact ⟨content, rfl⟩
  texts arglists := by
    obtain ⟨contents, rfl⟩ := normal.texts arglists
    have made : (Value.seq (contents.map .text)).toJson = .ok (.array (contents.map .string)) := by
      rw [Value.toJson, Value.itemsToJson_texts]
      rfl
    refine ⟨contents, (Value.ofJson_toJson _ made).symm.trans ?_⟩
    rw [Value.ofJson, Value.ofJsonItems_eq, List.map_map]
    rfl

theorem Normal.decoded (normal : Normal key value) (made : value.toJson = .ok json)
    (read : json.written.json? = some back) : Normal key (Value.ofJson back) where
  kept := normal.kept
  text textual := by
    obtain ⟨content, rfl⟩ := normal.text textual
    cases made
    rw [Json.written, Json.Raw.json?, Json.decodeString?_escaped] at read
    cases read
    exact ⟨content, rfl⟩
  texts arglists := by
    obtain ⟨contents, rfl⟩ := normal.texts arglists
    rw [Value.toJson, Value.itemsToJson_texts] at made
    cases made
    rw [Json.json?_written_texts] at read
    cases read
    exact ⟨contents, by rw [Value.ofJson, Value.ofJsonItems_eq, List.map_map]; rfl⟩

theorem IsNormal.stored (normal : record.IsNormal) : record.stored.IsNormal := by
  intro entry member
  obtain ⟨field, found, rfl⟩ := List.mem_map.1 member
  exact (normal field found).stored

/-- A normalized record is still normal when it is read back from its JSON. -/
theorem IsNormal.decoded (normal : record.IsNormal) (made : record.toJson = .ok json)
    (read : json.written.json? = some back) :
    ∃ decoded, ofJson? back = some decoded ∧ decoded.IsNormal := by
  obtain ⟨fields, madeFields, rfl⟩ := exceptMap_eq_ok_iff.1 made
  obtain ⟨decoded, readFields, rfl⟩ := Option.map_eq_some_iff.1 read
  refine ⟨_, rfl, Dict.All.ofList ?_⟩
  rw [Value.ofJsonFields_eq]
  refine List.forall_mem_map.2 fun field member => ?_
  rw [Json.Raw.jsonFields?_eq_mapM, Json.writtenFields_eq] at readFields
  obtain ⟨raw, found, named⟩ := exists_of_mem_mapM_some readFields (mem_sortEntries member)
  obtain ⟨source, fromSource, rfl⟩ := List.mem_map.1 found
  rw [Json.Raw.decodeField?, Json.decodeString?_escaped, Option.bind_some] at named
  obtain ⟨value, readValue, rfl⟩ := Option.map_eq_some_iff.1 named
  rw [Value.entriesToJson_eq_mapM] at madeFields
  obtain ⟨entry, isEntry, madeField⟩ := exists_of_mem_mapM_ok madeFields fromSource
  obtain ⟨json, madeValue, rfl⟩ := exceptMap_eq_ok_iff.1 madeField
  exact (normal entry isEntry).decoded madeValue readValue

theorem json?_of_read? (read : Json.read? json.render = some back) : json.written.json? = some back := by
  obtain ⟨raw, shallow, denotes⟩ := Option.bind_eq_some_iff.1 read
  rw [Json.Raw.read?_render, Option.bind_some] at shallow
  obtain rfl := Json.Raw.eq_of_shallow? shallow
  exact denotes

def WithoutNaN (metadata : Metadata) : Prop := metadata.All fun _ value => value.hasNaN = false

theorem equal_self (numbers : WithoutNaN record.fields) : record.equal record = true :=
  Value.equalEntries_self _ (Value.entriesHaveNaN_eq_false_iff.2 numbers)

theorem withoutNaN_of_ofJson? {decoded : Record} (read : ofJson? back = some decoded) :
    WithoutNaN decoded.fields := by
  cases back with
  | object fields =>
    cases read
    apply Dict.All.ofList
    rw [Value.ofJsonFields_eq]
    exact List.forall_mem_map.2 fun field _ => Value.hasNaN_ofJson field.2
  | _ => cases read

theorem hasNaN_normalizeField {made : Value} (number : value.hasNaN = false)
    (normalized : normalizeField key value = some made) : made.hasNaN = false := by
  have normal := normal_of_normalizeField normalized
  by_cases textual : key ∈ textKeys
  · obtain ⟨content, rfl⟩ := normal.text textual
    rfl
  by_cases arglists : key = "arglists"
  · obtain ⟨contents, rfl⟩ := normal.texts arglists
    rw [Value.hasNaN, Value.itemsHaveNaN_eq_false_iff]
    exact List.forall_mem_map.2 fun _ _ => rfl
  · rw [normalizeField_other normal.kept textual arglists] at normalized
    exact Option.some.inj normalized ▸ number

theorem withoutNaN_normalize {metadata : Metadata} (numbers : WithoutNaN metadata) :
    WithoutNaN (normalize metadata).fields := by
  intro entry member
  obtain ⟨value, raw, made⟩ := exists_of_mem_normalize member
  exact hasNaN_normalizeField (numbers _ raw) made

end Storage

theorem mem_keys_normalize_iff (metadata : Metadata) (key : String) :
    key ∈ (normalize metadata).fields.keys ↔ key ∈ metadata.keys ∧ key ∉ droppedKeys ∧
      ¬ (key = "tag" ∧ metadata.get? "tag" = some .nil) := by
  rw [Dict.mem_keys_iff, Dict.mem_keys_iff]
  change (∃ value, (normalize metadata).get? key = some value) ↔ _
  rw [← Option.isSome_iff_exists, get?_normalize]
  cases found : metadata.get? key with
  | none => simp
  | some value =>
    have tag : key = "tag" ∧ value = .nil ↔ key = "tag" ∧ metadata.get? "tag" = some .nil := by
      refine and_congr_right ?_
      rintro rfl
      rw [found, Option.some.injEq]
    rw [Option.bind_some, isSome_normalizeField_iff, tag]
    simp

theorem get?_normalize_other {key : String} (kept : key ∉ droppedKeys) (plain : key ∉ textKeys)
    (other : key ≠ "arglists") (metadata : Metadata) :
    (normalize metadata).get? key = metadata.get? key := by
  rw [get?_normalize]
  cases metadata.get? key with
  | none => rfl
  | some value => exact normalizeField_other kept plain other value

theorem arglists_normalize {metadata : Metadata} {value : Value}
    (found : metadata.get? "arglists" = some value) :
    (normalize metadata).arglists = printedArglists value := by
  have kept : (normalize metadata).get? "arglists" = some (.seq ((printedArglists value).map .text)) := by
    rw [get?_normalize, found]
    rfl
  rw [arglists, kept]
  exact List.filterMap_map.trans List.filterMap_some

/-- Normalization works field by field: a key is lost with a runtime object or a
tag that is nil, names and the tag become text, argument lists several texts, and
other fields stay. What it has made it leaves alone, and also what is read back
from that. -/
theorem normalize_stable (metadata : Metadata) :
    (∀ key, key ∈ (normalize metadata).fields.keys ↔
      key ∈ metadata.keys ∧ key ∉ ["protocol", "inline", "inline-arities"] ∧
        ¬ (key = "tag" ∧ metadata.get? "tag" = some .nil)) ∧
    (∀ (other : Metadata) (key : String), other.get? key = metadata.get? key →
      (normalize other).get? key = (normalize metadata).get? key) ∧
    (∀ key ∈ ["ns", "name", "tag"], ∀ value, (normalize metadata).get? key = some value →
      ∃ content, value = .text content) ∧
    (∀ value, (normalize metadata).get? "arglists" = some value →
      ∃ contents : List String, value = .seq (contents.map .text)) ∧
    (∀ key ∉ ["protocol", "inline", "inline-arities", "ns", "name", "tag", "arglists"],
      (normalize metadata).get? key = metadata.get? key) ∧
    normalize (normalize metadata).fields = normalize metadata ∧
    (WithoutNaN metadata →
      (normalize (normalize metadata).fields).equal (normalize metadata) = true) ∧
    (((normalize metadata).fields.All fun _ value => value.isPlain = true) →
      ∃ json, (normalize metadata).toJson = .ok json ∧
        ∀ back, back = json ∨ Json.read? json.render = some back →
          ∃ decoded, ofJson? back = some decoded ∧ normalize decoded.fields = decoded ∧
            (normalize decoded.fields).equal decoded = true) := by
  have normal {key : String} {value : Value} (found : (normalize metadata).get? key = some value) :
      Normal key value := isNormal_normalize metadata _ (Dict.mem_entries_iff.2 found)
  have again : normalize (normalize metadata).fields = normalize metadata :=
    (isNormal_normalize metadata).normalize_self
  refine ⟨mem_keys_normalize_iff metadata, ?_, fun key textual value found => (normal found).text textual,
    fun value found => (normal found).texts rfl, ?_, again, fun numbers => ?_, fun plain => ?_⟩
  · intro other key same
    rw [get?_normalize, get?_normalize, same]
  · intro key others
    have apart : key ∉ droppedKeys ∧ key ∉ textKeys ∧ key ≠ "arglists" := by
      simpa [droppedKeys, textKeys, and_assoc] using others
    exact get?_normalize_other apart.1 apart.2.1 apart.2.2 metadata
  · rw [again]
    exact equal_self (withoutNaN_normalize numbers)
  · obtain ⟨json, made⟩ := toJson_of_plain plain
    refine ⟨json, made, fun back origin => ?_⟩
    have readsBack : ∃ decoded, ofJson? back = some decoded ∧ decoded.IsNormal := by
      rcases origin with rfl | read
      · exact ⟨_, ofJson?_toJson made, (isNormal_normalize metadata).stored⟩
      · exact (isNormal_normalize metadata).decoded made (json?_of_read? read)
    obtain ⟨decoded, read, isNormal⟩ := readsBack
    refine ⟨decoded, read, isNormal.normalize_self, ?_⟩
    rw [isNormal.normalize_self]
    exact equal_self (withoutNaN_of_ofJson? read)

end Record

end VarDoc
