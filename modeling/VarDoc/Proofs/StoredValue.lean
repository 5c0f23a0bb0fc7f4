import VarDoc.Meta.Record
import VarDoc.Proofs.JsonReading
import VarDoc.Proofs.Traversal

/-! What storage makes of metadata. Names and code come back as the text they
print as, and a double that is not finite as nothing. -/

set_option autoImplicit false

namespace VarDoc

namespace Value

mutual

def stored : Value → Value
  | .float value => if value.isFinite then .float value else .nil
  | .keyword name => .text name
  | .symbol name => .text name
  | .code form => .text form.render
  | .seq items => .seq (storedItems items)
  | .map entries => .map (storedEntries entries)
  | value => value

def storedItems : List Value → List Value
  | [] => []
  | item :: rest => item.stored :: storedItems rest

def storedEntries : List (String × Value) → List (String × Value)
  | [] => []
  | (key, value) :: rest => (key, value.stored) :: storedEntries rest

end

mutual

def Sorted : Value → Prop
  | .seq items => ItemsSorted items
  | .map entries => Ordered entries ∧ EntriesSorted entries
  | _ => True

def ItemsSorted : List Value → Prop
  | [] => True
  | item :: rest => item.Sorted ∧ ItemsSorted rest

def EntriesSorted : List (String × Value) → Prop
  | [] => True
  | (_, value) :: rest => value.Sorted ∧ EntriesSorted rest

end

theorem storedEntries_eq (entries : List (String × Value)) :
    storedEntries entries = entries.map fun entry => (entry.1, entry.2.stored) := by
  induction entries with
  | nil => rfl
  | cons entry rest ih => rw [storedEntries, ih, List.map_cons]

theorem itemsToJson_eq_mapM (items : List Value) : itemsToJson items = items.mapM toJson := by
  induction items with
  | nil => rfl
  | cons item rest ih =>
    rw [itemsToJson, List.mapM_cons, ih]
    cases item.toJson with
    | error => rfl
    | ok json => cases rest.mapM toJson <;> rfl

def entryToJson (entry : String × Value) : Except Value (String × Json) :=
  entry.2.toJson.map (entry.1, ·)

theorem entriesToJson_eq_mapM (entries : List (String × Value)) :
    entriesToJson entries = entries.mapM entryToJson := by
  induction entries with
  | nil => rfl
  | cons entry rest ih =>
    rw [entriesToJson, List.mapM_cons, ih, entryToJson]
    cases entry.2.toJson with
    | error => rfl
    | ok json => cases rest.mapM entryToJson <;> rfl

theorem ofJsonItems_eq (items : List Json) : ofJsonItems items = items.map ofJson := by
  induction items with
  | nil => rfl
  | cons item rest ih => rw [ofJsonItems, ih, List.map_cons]

theorem ofJsonFields_eq (fields : List (String × Json)) :
    ofJsonFields fields = fields.map fun field => (field.1, ofJson field.2) := by
  induction fields with
  | nil => rfl
  | cons field rest ih => rw [ofJsonFields, ih, List.map_cons]

theorem ofJson_ofInt64 (value : Int64) : ofJson (Json.ofInt64 value) = .int value := by
  have below : value.toInt < 0x8000000000000000 := value.toInt_lt
  rw [Json.ofInt64, ofJson, ofNumber, if_pos below, Int64.ofInt_toInt]

theorem ofJson_ofFloat (value : Float) : ofJson (Json.ofFloat value) = (Value.float value).stored := by
  rw [Json.ofFloat, stored]
  split
  · rfl
  · rfl

mutual

/-- A value's JSON stands for what comes back from storage. -/
theorem ofJson_toJson : ∀ (value : Value) {json : Json}, value.toJson = .ok json →
    ofJson json = value.stored
  | .nil, _, made | .bool _, _, made | .text _, _, made | .keyword _, _, made | .symbol _, _, made
  | .code _, _, made => by
    obtain rfl := Except.ok.inj made
    rfl
  | .int value, _, made => by
    obtain rfl := Except.ok.inj made
    exact ofJson_ofInt64 value
  | .float value, _, made => by
    obtain rfl := Except.ok.inj made
    exact ofJson_ofFloat value
  | .seq items, _, made => by
    obtain ⟨jsons, madeItems, rfl⟩ := exceptMap_eq_ok_iff.1 made
    rw [ofJson, stored, ofJsonItems_itemsToJson items madeItems]
  | .map entries, _, made => by
    obtain ⟨fields, madeFields, rfl⟩ := exceptMap_eq_ok_iff.1 made
    rw [ofJson, stored, ofJsonFields_entriesToJson entries madeFields]
  | .namespaceRef _, _, made | .varRef _ _, _, made | .function _, _, made => by contradiction

theorem ofJsonItems_itemsToJson : ∀ (items : List Value) {jsons : List Json},
    itemsToJson items = .ok jsons → ofJsonItems jsons = storedItems items
  | [], _, made => by
    obtain rfl := Except.ok.inj made
    rfl
  | item :: rest, _, made => by
    rw [itemsToJson] at made
    split at made
    · contradiction
    next json madeItem =>
      obtain ⟨jsons, madeRest, rfl⟩ := exceptMap_eq_ok_iff.1 made
      rw [ofJsonItems, storedItems, ofJson_toJson item madeItem,
        ofJsonItems_itemsToJson rest madeRest]

theorem ofJsonFields_entriesToJson : ∀ (entries : List (String × Value))
    {fields : List (String × Json)}, entriesToJson entries = .ok fields →
    ofJsonFields fields = storedEntries entries
  | [], _, made => by
    obtain rfl := Except.ok.inj made
    rfl
  | (key, value) :: rest, _, made => by
    rw [entriesToJson] at made
    split at made
    · contradiction
    next json madeValue =>
      obtain ⟨fields, madeRest, rfl⟩ := exceptMap_eq_ok_iff.1 made
      rw [ofJsonFields, storedEntries, ofJson_toJson value madeValue,
        ofJsonFields_entriesToJson rest madeRest]

end

theorem keys_entriesToJson {entries : List (String × Value)} {fields : List (String × Json)}
    (made : entriesToJson entries = .ok fields) : fields.map Prod.fst = entries.map Prod.fst := by
  induction entries generalizing fields with
  | nil =>
    obtain rfl := Except.ok.inj made
    rfl
  | cons entry rest ih =>
    rw [entriesToJson] at made
    split at made
    · contradiction
    next json madeValue =>
      obtain ⟨fields, madeRest, rfl⟩ := exceptMap_eq_ok_iff.1 made
      rw [List.map_cons, List.map_cons, ih madeRest]

theorem lookupEntry_entriesToJson {entries : List (String × Value)} {fields : List (String × Json)}
    (made : entriesToJson entries = .ok fields) (key : String) :
    (lookupEntry key fields).map .ok = (lookupEntry key entries).map toJson := by
  induction entries generalizing fields with
  | nil =>
    obtain rfl := Except.ok.inj made
    rfl
  | cons entry rest ih =>
    rw [entriesToJson] at made
    split at made
    · contradiction
    next json madeValue =>
      obtain ⟨fields, madeRest, rfl⟩ := exceptMap_eq_ok_iff.1 made
      rw [lookupEntry_cons, lookupEntry_cons]
      by_cases same : entry.1 = key
      · rw [if_pos same, if_pos same, Option.map_some, Option.map_some, madeValue]
      · rw [if_neg same, if_neg same, ih madeRest]

mutual

theorem sorted_toJson : ∀ (value : Value) {json : Json}, value.toJson = .ok json → value.Sorted →
    json.Sorted
  | .nil, _, made, _ => by
    obtain rfl := Except.ok.inj made
    exact .null
  | .bool _, _, made, _ => by
    obtain rfl := Except.ok.inj made
    exact .bool _
  | .int _, _, made, _ => by
    obtain rfl := Except.ok.inj made
    exact .number _
  | .float value, _, made, _ => by
    obtain rfl := Except.ok.inj made
    unfold Json.ofFloat
    split
    · exact .number _
    · exact .null
  | .text _, _, made, _ | .keyword _, _, made, _ | .symbol _, _, made, _ | .code _, _, made, _ => by
    obtain rfl := Except.ok.inj made
    exact .string _
  | .seq items, _, made, sorted => by
    obtain ⟨jsons, madeItems, rfl⟩ := exceptMap_eq_ok_iff.1 made
    exact .array (sorted_itemsToJson items madeItems sorted)
  | .map entries, _, made, sorted => by
    obtain ⟨fields, madeFields, rfl⟩ := exceptMap_eq_ok_iff.1 made
    exact .object (ordered_of_keys (keys_entriesToJson madeFields) sorted.1)
      (sorted_entriesToJson entries madeFields sorted.2)
  | .namespaceRef _, _, made, _ | .varRef _ _, _, made, _ | .function _, _, made, _ => by contradiction

theorem sorted_itemsToJson : ∀ (items : List Value) {jsons : List Json},
    itemsToJson items = .ok jsons → ItemsSorted items → ∀ json ∈ jsons, json.Sorted
  | [], _, made, _ => by
    obtain rfl := Except.ok.inj made
    exact fun _ member => absurd member List.not_mem_nil
  | item :: rest, _, made, sorted => by
    rw [itemsToJson] at made
    split at made
    · contradiction
    next json madeItem =>
      obtain ⟨jsons, madeRest, rfl⟩ := exceptMap_eq_ok_iff.1 made
      exact List.forall_mem_cons.2
        ⟨sorted_toJson item madeItem sorted.1, sorted_itemsToJson rest madeRest sorted.2⟩

theorem sorted_entriesToJson : ∀ (entries : List (String × Value)) {fields : List (String × Json)},
    entriesToJson entries = .ok fields → EntriesSorted entries → ∀ field ∈ fields, field.2.Sorted
  | [], _, made, _ => by
    obtain rfl := Except.ok.inj made
    exact fun _ member => absurd member List.not_mem_nil
  | (key, value) :: rest, _, made, sorted => by
    rw [entriesToJson] at made
    split at made
    · contradiction
    next json madeValue =>
      obtain ⟨fields, madeRest, rfl⟩ := exceptMap_eq_ok_iff.1 made
      exact List.forall_mem_cons.2
        ⟨sorted_toJson value madeValue sorted.1, sorted_entriesToJson rest madeRest sorted.2⟩

end

end Value

namespace Record

def stored (record : Record) : Record := ⟨record.fields.map Value.stored⟩

def Sorted (record : Record) : Prop := Value.EntriesSorted record.fields.entries

theorem sorted_toJson {record : Record} {json : Json} (made : record.toJson = .ok json)
    (sorted : record.Sorted) : json.Sorted := by
  obtain ⟨fields, madeFields, rfl⟩ := exceptMap_eq_ok_iff.1 made
  exact .object (ordered_of_keys (Value.keys_entriesToJson madeFields) record.fields.ordered)
    (Value.sorted_entriesToJson _ madeFields sorted)

theorem toJson_get? {left right : Record} {json : Json} (madeLeft : left.toJson = .ok json)
    (madeRight : right.toJson = .ok json) (key : String) :
    (left.get? key).map Value.toJson = (right.get? key).map Value.toJson := by
  obtain ⟨fields, madeFields, rfl⟩ := exceptMap_eq_ok_iff.1 madeLeft
  obtain ⟨others, madeOthers, same⟩ := exceptMap_eq_ok_iff.1 madeRight
  obtain rfl := Json.object.inj same
  exact (Value.lookupEntry_entriesToJson madeFields key).symm.trans
    (Value.lookupEntry_entriesToJson madeOthers key)

theorem ofJson?_toJson {record : Record} {json : Json} (made : record.toJson = .ok json) :
    ofJson? json = some record.stored := by
  obtain ⟨fields, madeFields, rfl⟩ := exceptMap_eq_ok_iff.1 made
  rw [ofJson?, Value.ofJsonFields_entriesToJson _ madeFields, Value.storedEntries_eq,
    Dict.ofList_map, stored]

end Record

end VarDoc
