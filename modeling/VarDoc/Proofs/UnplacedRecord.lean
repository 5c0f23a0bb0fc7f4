import VarDoc.Document
import VarDoc.Namespace.Registry
import VarDoc.Proofs.UnplacedDefinition

/-! What is stored of metadata that differs only in places. Such metadata gives
the same record and the same JSON, but for the fields that tell a place. -/

set_option autoImplicit false

namespace VarDoc

def Json.without (keys : List String) : Json → Json
  | .object fields => .object (fields.filter fun field => !keys.contains field.1)
  | json => json

namespace Value

mutual

theorem display_unplaced : ∀ value : Value, value.unplaced.display = value.display
  | .seq items => by rw [unplaced, display, display, displayItems_unplaced items]
  | .map entries => by rw [unplaced, display, display, displayEntries_unplaced entries]
  | .code form | .function form => by rw [unplaced, display, display, Form.render_unplaced]
  | .nil | .bool _ | .int _ | .float _ | .text _ | .keyword _ | .symbol _ | .namespaceRef _
  | .varRef _ _ => rfl

theorem displayItems_unplaced :
    ∀ items : List Value, displayItems (unplacedItems items) = displayItems items
  | [] => rfl
  | item :: rest => by
    rw [unplacedItems, displayItems, displayItems, display_unplaced item, displayItems_unplaced rest]

theorem displayEntries_unplaced :
    ∀ entries : List (String × Value), displayEntries (unplacedEntries entries) = displayEntries entries
  | [] => rfl
  | (key, value) :: rest => by
    rw [unplacedEntries, displayEntries, displayEntries, display_unplaced value,
      displayEntries_unplaced rest]

end

theorem toText_unplaced (value : Value) : value.unplaced.toText = value.toText := by
  have shown := display_unplaced value
  cases value with
  | text | symbol | namespaceRef => rfl
  | _ => exact shown

mutual

theorem toJson_unplaced : ∀ value : Value,
    value.unplaced.toJson = exceptBoth unplaced id value.toJson
  | .seq items => by
    rw [unplaced, toJson, toJson, itemsToJson_unplaced items]
    cases itemsToJson items <;> rfl
  | .map entries => by
    rw [unplaced, toJson, toJson, entriesToJson_unplaced entries]
    cases entriesToJson entries <;> rfl
  | .code form => by rw [unplaced, toJson, toJson, Form.render_unplaced]; rfl
  | .nil | .bool _ | .int _ | .float _ | .text _ | .keyword _ | .symbol _ | .namespaceRef _
  | .varRef _ _ | .function _ => rfl

theorem itemsToJson_unplaced : ∀ items : List Value,
    itemsToJson (unplacedItems items) = exceptBoth unplaced id (itemsToJson items)
  | [] => rfl
  | item :: rest => by
    rw [unplacedItems, itemsToJson, itemsToJson, toJson_unplaced item, itemsToJson_unplaced rest]
    cases item.toJson with
    | error => rfl
    | ok json => cases itemsToJson rest <;> rfl

theorem entriesToJson_unplaced : ∀ entries : List (String × Value),
    entriesToJson (unplacedEntries entries) = exceptBoth unplaced id (entriesToJson entries)
  | [] => rfl
  | (key, value) :: rest => by
    rw [unplacedEntries, entriesToJson, entriesToJson, toJson_unplaced value,
      entriesToJson_unplaced rest]
    cases value.toJson with
    | error => rfl
    | ok json => cases entriesToJson rest <;> rfl

end

theorem toJson_of_unplaced {value : Value} {json : Json} (made : value.unplaced.toJson = .ok json) :
    value.toJson = .ok json := by
  rw [toJson_unplaced] at made
  cases written : value.toJson with
  | error culprit =>
    rw [written] at made
    cases made
  | ok =>
    rw [written] at made
    exact made

theorem entriesToJson_filter {entries : List (String × Value)} {fields : List (String × Json)}
    (written : entriesToJson entries = .ok fields) (keep : String → Bool) :
    entriesToJson (entries.filter fun entry => keep entry.1) =
      .ok (fields.filter fun field => keep field.1) := by
  induction entries generalizing fields with
  | nil =>
    cases written
    rfl
  | cons entry rest ih =>
    rw [entriesToJson] at written
    split at written
    · contradiction
    next json made =>
      obtain ⟨others, writtenRest, rfl⟩ := exceptMap_eq_ok_iff.1 written
      cases kept : keep entry.1 with
      | false => simp [kept, ih writtenRest]
      | true => simp [kept, entriesToJson, made, ih writtenRest, Except.map]

end Value

namespace Record

theorem printedArglists_unplaced (value : Value) :
    printedArglists value.unplaced = printedArglists value := by
  cases value with
  | seq items =>
    rw [Value.unplaced, printedArglists, printedArglists, Value.unplacedItems_eq, List.map_map]
    exact List.map_congr_left fun item _ => item.toText_unplaced
  | code form =>
    have rendered := Form.render_unplaced form
    cases form with
    | group shape items =>
      cases shape with
      | list | vector =>
        simp only [Value.unplaced, Form.unplaced, printedArglists, Form.unplacedAll_eq, List.map_map]
        exact List.map_congr_left fun item _ => item.render_unplaced
      | set | function => exact congrArg (fun text => [text]) rendered
    | atom | map | marked => exact congrArg (fun text => [text]) rendered
  | function form => exact congrArg (fun text => [text]) (Form.render_unplaced form)
  | map entries => exact congrArg (fun text => [text]) (Value.toText_unplaced (.map entries))
  | _ => rfl

theorem normalizeField_unplaced (key : String) (value : Value) :
    normalizeField key value.unplaced = (normalizeField key value).map Value.unplaced := by
  unfold normalizeField
  split
  · rfl
  split
  · rw [Value.toText_unplaced]
    rfl
  split
  · have shown := congrArg (fun text => some (Value.text text)) (Value.toText_unplaced value)
    cases value with
    | nil => rfl
    | _ => exact shown
  split
  · rw [printedArglists_unplaced, Option.map_some, Value.unplaced, Value.unplacedItems_eq, List.map_map]
    rfl
  · rfl

def normalizedEntry (entry : String × Value) : Option (String × Value) :=
  (normalizeField entry.1 entry.2).map (entry.1, ·)

theorem entries_normalize (metadata : Metadata) :
    (normalize metadata).fields.entries = metadata.entries.filterMap normalizedEntry := rfl

theorem normalizedEntry_unplaced (entry : String × Value) :
    normalizedEntry (entry.1, entry.2.unplaced) =
      (normalizedEntry entry).map fun made => (made.1, made.2.unplaced) := by
  rw [normalizedEntry, normalizedEntry, normalizeField_unplaced, Option.map_map, Option.map_map]
  rfl

theorem filterMap_normalizedEntry (keep : String → Bool) (entries : List (String × Value)) :
    (entries.filter fun entry => keep entry.1).filterMap normalizedEntry =
      (entries.filterMap normalizedEntry).filter fun entry => keep entry.1 := by
  rw [List.filterMap_filter, List.filter_filterMap]
  refine congrArg (List.filterMap · entries) (funext fun entry => ?_)
  unfold normalizedEntry
  cases normalizeField entry.1 entry.2 <;> cases kept : keep entry.1 <;> simp [Option.filter, kept]

/-- The stored text of metadata, but for its place, depends on nothing else. -/
theorem toJson_normalize {metadata : Metadata} {json : Json}
    (written : (normalize metadata).toJson = .ok json) :
    (normalize metadata.unplaced.unlocated).toJson = .ok (json.without placeKeys) := by
  obtain ⟨fields, writtenFields, rfl⟩ := exceptMap_eq_ok_iff.1 written
  have unplacedFields := Value.entriesToJson_unplaced (normalize metadata).fields.entries
  rw [writtenFields] at unplacedFields
  have entries : (normalize metadata.unplaced.unlocated).fields.entries =
      (Value.unplacedEntries (normalize metadata).fields.entries).filter fun entry =>
        !placeKeys.contains entry.1 := by
    rw [entries_normalize, entries_normalize, Value.unplacedEntries_eq]
    refine (filterMap_normalizedEntry (fun key => !placeKeys.contains key) _).trans
      (congrArg (List.filter _) ?_)
    change (metadata.entries.map _).filterMap normalizedEntry = _
    rw [List.filterMap_map, List.map_filterMap]
    exact congrArg (List.filterMap · _) (funext normalizedEntry_unplaced)
  rw [toJson, entries, Value.entriesToJson_filter unplacedFields (fun key => !placeKeys.contains key)]
  rfl

end Record

def Metadata.placeless (metadata : Metadata) : Metadata := metadata.unplaced.unlocated

theorem Metadata.get?_of_placeless {metadata : Metadata} {key : String} {value : Value}
    (found : Dict.get? metadata.placeless key = some value) :
    ∃ placed, Dict.get? metadata key = some placed ∧ placed.unplaced = value := by
  unfold Metadata.placeless Metadata.unlocated Metadata.unplaced at found
  rw [Dict.get?_without, Dict.get?_map] at found
  split at found
  · cases found
  · exact Option.map_eq_some_iff.1 found

def Definition.placeless (definition : Definition) : Definition :=
  definition.unplaced.unlocated

theorem isPublic_placeless (metadata : Metadata) : isPublic metadata.placeless = isPublic metadata := by
  unfold isPublic
  have found : Dict.get? metadata.placeless "private" = (Dict.get? metadata "private").map Value.unplaced :=
    (Dict.get?_without placeKeys _ "private").trans (Dict.get?_map Value.unplaced metadata "private")
  rw [found]
  cases Dict.get? metadata "private" with
  | none => rfl
  | some value => cases value <;> rfl

theorem publics_placeless (space : Namespace) :
    space.publics.map Metadata.placeless =
      (space.vars.map Metadata.placeless).values.filter isPublic := by
  have values : (space.vars.map Metadata.placeless).values =
      space.vars.values.map Metadata.placeless := by
    unfold Dict.values Dict.map
    rw [List.map_map, List.map_map]
    rfl
  rw [values, List.filter_map, Namespace.publics]
  exact congrArg (List.map Metadata.placeless)
    (congrArg (List.filter · space.vars.values) (funext isPublic_placeless).symm)

def Json.withoutEach (keys : List String) : Json → Json
  | .array items => .array (items.map (without keys))
  | json => json

theorem recordsToJson_placeless {publics : List Metadata} {json : Json}
    (written : Document.recordsToJson (publics.map Record.normalize) = .ok json) :
    Document.recordsToJson ((publics.map Metadata.placeless).map Record.normalize) =
      .ok (json.withoutEach placeKeys) := by
  obtain ⟨items, writtenItems, rfl⟩ := exceptMap_eq_ok_iff.1 written
  refine exceptMap_eq_ok_iff.2 ⟨items.map (Json.without placeKeys), ?_, rfl⟩
  rw [mapM_eq_ok_iff] at writtenItems ⊢
  clear written
  induction publics generalizing items with
  | nil => rw [List.map_eq_nil_iff.1 writtenItems.symm]; rfl
  | cons metadata rest ih =>
    cases items with
    | nil => contradiction
    | cons item items =>
      obtain ⟨first, others⟩ := List.cons.inj writtenItems
      simp only [List.map_cons]
      rw [ih items others]
      exact congrArg (· :: _) (Record.toJson_normalize first)

end VarDoc
