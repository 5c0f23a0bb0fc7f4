import VarDoc.Document.Reading
import VarDoc.Proofs.StoredValue

/-! Documents are read back from their text: every field under its name, every
namespace with its records. -/

set_option autoImplicit false

namespace VarDoc.Document

open Json (Raw escaped decodeString?_escaped)

def unlessNull : Option Json → Option Json
  | some .null => none
  | value => value

def stored (document : Document) : Document :=
  { document with
    scm := unlessNull document.scm
    license := unlessNull document.license
    namespaces := document.namespaces.map (·.map Record.stored) }

structure Sorted (document : Document) : Prop where
  scm : ∀ json ∈ document.scm, json.Sorted
  license : ∀ json ∈ document.license, json.Sorted
  records : ∀ entry ∈ document.namespaces.entries, ∀ record ∈ entry.2, record.Sorted

theorem records?_written {records : List Record} {json : Json}
    (made : recordsToJson records = .ok json) (sorted : ∀ record ∈ records, record.Sorted)
    (legible : json.Legible) : records? json.written = some (records.map Record.stored) := by
  obtain ⟨jsons, madeRecords, rfl⟩ := exceptMap_eq_ok_iff.1 made
  rw [Json.written, Json.writtenItems_eq, records?]
  apply mapM_mapM madeRecords
  intro record member json found madeRecord
  rw [Json.json?_written (Record.sorted_toJson madeRecord (sorted record member))
    (legible.item found), Option.bind_some, Record.ofJson?_toJson madeRecord]

theorem namespaces?_written {namespaces : Dict (List Record)} {json : Json}
    (made : namespacesToJson namespaces = .ok json)
    (sorted : ∀ entry ∈ namespaces.entries, ∀ record ∈ entry.2, record.Sorted)
    (legible : json.Legible) :
    namespaces? json.written = some (namespaces.map (·.map Record.stored)) := by
  obtain ⟨fields, madeFields, rfl⟩ := exceptMap_eq_ok_iff.1 made
  rw [Json.written, Json.writtenFields_eq, namespaces?]
  refine Option.bind_eq_some_iff.2 ⟨namespaces.entries.map fun entry =>
    (entry.1, entry.2.map Record.stored), mapM_mapM madeFields ?_, ?_⟩
  · intro entry member field found madeField
    obtain ⟨json, madeRecords, rfl⟩ := exceptMap_eq_ok_iff.1 madeField
    have read := records?_written madeRecords (sorted entry member) (legible.field found)
    simp only [decodeString?_escaped, read]
    rfl
  · change some (Dict.ofList _) = _
    rw [Dict.ofList_map]

def headerValues (document : Document) : List (String × Option Json) :=
  [("name", document.name.map .string), ("url", document.url.map .string),
    ("description", document.description.map .string), ("version", document.version.map .string),
    ("group", document.group.map .string), ("scm", document.scm), ("license", document.license)]

def fieldValues (document : Document) (namespaces : Json) : List (String × Option Json) :=
  document.headerValues ++ [("namespaces", some namespaces)]

theorem keys_fieldValues (document : Document) (namespaces : Json) :
    (document.fieldValues namespaces).map Prod.fst = fieldNames := rfl

theorem present_fieldValues (document : Document) (namespaces : Json) :
    present (document.fieldValues namespaces) =
      document.headerFields ++ [("namespaces", namespaces)] := by
  rw [fieldValues, present, List.filterMap_append]
  rfl

theorem knownFields?_written {fields : List (String × Json)}
    (known : (fields.map Prod.fst).Sublist fieldNames) :
    knownFields? (Json.writtenFields fields) =
      some (fields.map fun field => (field.1, field.2.written)) := by
  have all : (fields.map fun field => (field.1, field.2.written)).filter
      (fun entry => fieldNames.contains entry.1) =
        fields.map fun field => (field.1, field.2.written) := by
    rw [List.filter_eq_self]
    intro entry member
    obtain ⟨field, found, rfl⟩ := List.mem_map.1 member
    simpa using known.subset (List.mem_map_of_mem found)
  have distinct : ((fields.map fun field => (field.1, field.2.written)).map Prod.fst).Nodup := by
    rw [List.map_map]
    exact known.nodup (by decide)
  rw [knownFields?, Json.writtenFields_eq]
  refine Option.bind_eq_some_iff.2
    ⟨fields.map fun field => (field.1, field.2.written), mapM_copies ?_, ?_⟩
  · intro field _
    dsimp only
    rw [decodeString?_escaped, Option.map_some]
  · change (if ((List.filter (fun entry : String × Raw => fieldNames.contains entry.1) _).map
      Prod.fst).Nodup then
        some (List.filter (fun entry : String × Raw => fieldNames.contains entry.1) _) else none) = _
    rw [all, if_pos distinct]

/-- A field that the document does not know makes no difference, however deep it
nests. -/
theorem read?_unknown {name : String} (unknown : name ∉ fieldNames) (json : Json)
    (fields : List (String × Json)) :
    read? (Json.object ((name, json) :: fields)).render = read? (Json.object fields).render := by
  have skipped (rest : List (List Char × Raw)) :
      knownFields? ((escaped name.toList, json.written) :: rest) = knownFields? rest := by
    rw [knownFields?, knownFields?, List.mapM_cons]
    dsimp only
    rw [decodeString?_escaped, Option.map_some]
    cases rest.mapM fun field : List Char × Raw => (Json.decodeString? field.1).map (·, field.2) with
    | none => rfl
    | some named =>
      have dropped : ((name, json.written) :: named).filter
          (fun entry => fieldNames.contains entry.1) =
            named.filter fun entry => fieldNames.contains entry.1 :=
        List.filter_cons_of_neg (by simpa using unknown)
      change (if ((((name, json.written) :: named).filter fun entry =>
        fieldNames.contains entry.1).map Prod.fst).Nodup then
          some (((name, json.written) :: named).filter fun entry => fieldNames.contains entry.1)
        else none) = _
      rw [dropped]
      rfl
  rw [read?, read?, Json.Raw.read?_render, Json.Raw.read?_render, Option.bind_some, Option.bind_some,
    Json.written, Json.written, Json.writtenFields, ofRaw?, ofRaw?, skipped]

theorem field?_of_shallow {α : Type} {fields : List (String × Raw)} {key : String} {missing : α}
    {read? : Raw → Option α} {raw : Raw} (found : lookupEntry key fields = some raw)
    (shallow : 1 + raw.depth ≤ Raw.depthLimit) : field? fields key missing read? = read? raw := by
  rw [field?, found]
  dsimp only
  rw [Raw.shallow?_eq_some_iff.2 ⟨shallow, rfl⟩, Option.bind_some]

theorem field?_of_absent {α : Type} {fields : List (String × Raw)} {key : String} {missing : α}
    {read? : Raw → Option α} (absent : lookupEntry key fields = none) :
    field? fields key missing read? = some missing := by
  rw [field?, absent]

theorem field?_text {fields : List (String × Raw)} {key : String} {text : Option String}
    (found : lookupEntry key fields = (text.map .string).map Json.written) :
    field? fields key none optionalText? = some text := by
  cases text with
  | none => exact field?_of_absent found
  | some text =>
    rw [field?_of_shallow found (Nat.le_add_left 1 _)]
    change (Json.decodeString? (escaped text.toList)).map some = _
    rw [decodeString?_escaped, Option.map_some]

theorem field?_json {fields : List (String × Raw)} {key : String} {value : Option Json}
    (found : lookupEntry key fields = value.map Json.written)
    (shallow : ∀ json ∈ value, 1 + json.depth ≤ Raw.depthLimit)
    (denotes : ∀ json ∈ value, json.written.json? = some json) :
    field? fields key none optionalJson? = some (unlessNull value) := by
  cases value with
  | none => exact field?_of_absent found
  | some json =>
    rw [field?_of_shallow found (Json.depth_written json ▸ shallow json rfl)]
    have back := denotes json rfl
    cases json with
    | null => rfl
    | bool | number | string | array | object => exact congrArg (Option.map some) back

theorem lookupEntry_written (document : Document) (namespaces : Json) (key : String) :
    lookupEntry key ((present (document.fieldValues namespaces)).map
        fun field => (field.1, field.2.written)) =
      (lookupEntry key (document.fieldValues namespaces)).join.map Json.written := by
  rw [lookupEntry_map, lookupEntry_present]
  rw [keys_fieldValues]
  decide

theorem mem_present {document : Document} {namespaces : Json} {key : String} {json : Json}
    (found : (lookupEntry key (document.fieldValues namespaces)).join = some json) :
    (key, json) ∈ present (document.fieldValues namespaces) := by
  rw [← lookupEntry_present] at found
  · exact mem_of_lookupEntry found
  · rw [keys_fieldValues]
    decide

theorem ofFields?_written {document : Document} {namespaces : Json}
    (made : namespacesToJson document.namespaces = .ok namespaces) (sorted : document.Sorted)
    (legible : (Json.object (present (document.fieldValues namespaces))).Legible)
    (shallow : (Json.object (present (document.fieldValues namespaces))).depth ≤ Raw.depthLimit) :
    ofFields? ((present (document.fieldValues namespaces)).map fun field => (field.1, field.2.written)) =
      some document.stored := by
  have within {key : String} {json : Json}
      (found : (lookupEntry key (document.fieldValues namespaces)).join = some json) :
      1 + json.depth ≤ Raw.depthLimit := by
    have inner : json.depth ≤ _ := Json.fieldsDepth_le_iff.1 (Nat.le_refl _) _ (mem_present found)
    rw [Json.depth] at shallow
    omega
  have looked := lookupEntry_written document namespaces
  generalize ((present (document.fieldValues namespaces)).map
    fun field => (field.1, field.2.written)) = fields at looked
  have name : field? fields "name" none optionalText? = some document.name :=
    field?_text (looked "name")
  have url : field? fields "url" none optionalText? = some document.url := field?_text (looked "url")
  have description : field? fields "description" none optionalText? = some document.description :=
    field?_text (looked "description")
  have version : field? fields "version" none optionalText? = some document.version :=
    field?_text (looked "version")
  have group : field? fields "group" none optionalText? = some document.group :=
    field?_text (looked "group")
  have scm : field? fields "scm" none optionalJson? = some (unlessNull document.scm) :=
    field?_json (looked "scm") (fun json found => @within "scm" json found) fun json found =>
      Json.json?_written (sorted.scm json found) (legible.field (@mem_present _ _ "scm" _ found))
  have license : field? fields "license" none optionalJson? = some (unlessNull document.license) :=
    field?_json (looked "license") (fun json found => @within "license" json found) fun json found =>
      Json.json?_written (sorted.license json found)
        (legible.field (@mem_present _ _ "license" _ found))
  have spaces : field? fields "namespaces" ∅ namespaces? = some document.stored.namespaces := by
    have short := @within "namespaces" namespaces rfl
    rw [field?_of_shallow (looked "namespaces") (Json.depth_written namespaces ▸ short)]
    exact namespaces?_written made sorted.records
      (legible.field (@mem_present _ _ "namespaces" _ rfl))
  simp only [ofFields?, name, url, description, version, group, scm, license, spaces]
  rfl

theorem shallow_of_field? {α : Type} {fields : List (String × Raw)} {key : String} {missing found : α}
    {read? : Raw → Option α} (read : field? fields key missing read? = some found) {raw : Raw}
    (known : lookupEntry key fields = some raw) : 1 + raw.depth ≤ Raw.depthLimit := by
  rw [field?, known] at read
  obtain ⟨same, shallow, -⟩ := Option.bind_eq_some_iff.1 read
  exact (Raw.shallow?_eq_some_iff.1 shallow).1

theorem shallow_of_ofFields? {fields : List (String × Raw)} {document : Document}
    (read : ofFields? fields = some document) {key : String} (known : key ∈ fieldNames) {raw : Raw}
    (found : lookupEntry key fields = some raw) : 1 + raw.depth ≤ Raw.depthLimit := by
  obtain ⟨name, readName, read⟩ := Option.bind_eq_some_iff.1 read
  obtain ⟨url, readUrl, read⟩ := Option.bind_eq_some_iff.1 read
  obtain ⟨description, readDescription, read⟩ := Option.bind_eq_some_iff.1 read
  obtain ⟨version, readVersion, read⟩ := Option.bind_eq_some_iff.1 read
  obtain ⟨group, readGroup, read⟩ := Option.bind_eq_some_iff.1 read
  obtain ⟨scm, readScm, read⟩ := Option.bind_eq_some_iff.1 read
  obtain ⟨license, readLicense, read⟩ := Option.bind_eq_some_iff.1 read
  obtain ⟨namespaces, readNamespaces, -⟩ := Option.bind_eq_some_iff.1 read
  simp only [fieldNames, List.mem_cons, List.not_mem_nil, or_false] at known
  rcases known with rfl | rfl | rfl | rfl | rfl | rfl | rfl | rfl
  · exact shallow_of_field? readName found
  · exact shallow_of_field? readUrl found
  · exact shallow_of_field? readDescription found
  · exact shallow_of_field? readVersion found
  · exact shallow_of_field? readGroup found
  · exact shallow_of_field? readScm found
  · exact shallow_of_field? readLicense found
  · exact shallow_of_field? readNamespaces found

/-- A document is read back from its text unless it is too deep. -/
theorem read?_render {document : Document} {json : Json} (made : document.toJson = .ok json)
    (sorted : document.Sorted) (legible : json.Legible) :
    read? json.render = if json.depth ≤ Raw.depthLimit then some document.stored else none := by
  obtain ⟨namespaces, madeNamespaces, rfl⟩ := exceptMap_eq_ok_iff.1 made
  rw [← present_fieldValues] at legible ⊢
  have known : ((present (document.fieldValues namespaces)).map Prod.fst).Sublist fieldNames :=
    keys_present _
  rw [read?, Json.Raw.read?_render, Option.bind_some, Json.written, ofRaw?, knownFields?_written known,
    Option.bind_some]
  split
  next shallow => exact ofFields?_written madeNamespaces sorted legible shallow
  next deep =>
    rw [Option.eq_none_iff_forall_not_mem]
    intro read accepted
    refine deep (Nat.succ_le_succ (Json.fieldsDepth_le_iff.2 fun field member => ?_))
    have found : lookupEntry field.1 ((present (document.fieldValues namespaces)).map
        fun field => (field.1, field.2.written)) = some field.2.written := by
      rw [lookupEntry_map, lookupEntry_of_mem (known.nodup (by decide)) member, Option.map_some]
    have short := shallow_of_ofFields? accepted (known.subset (List.mem_map_of_mem member)) found
    rw [Json.depth_written, Nat.add_comm] at short
    exact Nat.le_of_succ_le_succ short

end VarDoc.Document
