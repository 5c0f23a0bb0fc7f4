import VarDoc.Meta.OfForm
import VarDoc.Meta.Record
import VarDoc.Proofs.Dict

/-! Values that can be stored. A storable value has a JSON, and loses nothing
to it but the difference between kinds of text. Whatever data a form denotes is
storable; the objects of a running program are not, and a field that may hold
one is storable only in the form that a record keeps of it. -/

set_option autoImplicit false

namespace VarDoc

namespace Value

/-- At no depth is there an object of a running program, or a double that is
infinite or no number. -/
inductive Storable : Value → Prop where
  | nil : Storable .nil
  | bool (value : Bool) : Storable (.bool value)
  | int (value : Int64) : Storable (.int value)
  | float {value : Float} (finite : value.isFinite = true) : Storable (.float value)
  | text (content : String) : Storable (.text content)
  | keyword (name : String) : Storable (.keyword name)
  | symbol (name : String) : Storable (.symbol name)
  | seq {items : List Value} (each : ∀ item ∈ items, Storable item) : Storable (.seq items)
  | map {entries : List (String × Value)} (each : ∀ entry ∈ entries, Storable entry.2) :
    Storable (.map entries)
  | code (form : Form) : Storable (.code form)

theorem allPlain_iff (items : List Value) :
    allPlain items = true ↔ ∀ item ∈ items, item.isPlain = true := by
  induction items with
  | nil => simp [allPlain]
  | cons item rest ih => simp [allPlain, ih]

theorem entriesPlain_iff (entries : List (String × Value)) :
    entriesPlain entries = true ↔ ∀ entry ∈ entries, entry.2.isPlain = true := by
  induction entries with
  | nil => simp [entriesPlain]
  | cons entry rest ih => simp [entriesPlain, ih]

theorem Storable.isPlain {value : Value} (storable : value.Storable) : value.isPlain = true := by
  induction storable with
  | seq _ ih => simpa only [Value.isPlain, allPlain_iff] using ih
  | map _ ih => simpa only [Value.isPlain, entriesPlain_iff] using ih
  | nil => rfl
  | bool => rfl
  | int => rfl
  | float => rfl
  | text => rfl
  | keyword => rfl
  | symbol => rfl
  | code => rfl

mutual

theorem toJson_of_isPlain : ∀ value : Value, value.isPlain = true → ∃ json, value.toJson = .ok json
  | .nil, _ => ⟨_, rfl⟩
  | .bool _, _ => ⟨_, rfl⟩
  | .int _, _ => ⟨_, rfl⟩
  | .float _, _ => ⟨_, rfl⟩
  | .text _, _ => ⟨_, rfl⟩
  | .keyword _, _ => ⟨_, rfl⟩
  | .symbol _, _ => ⟨_, rfl⟩
  | .code _, _ => ⟨_, rfl⟩
  | .seq items, plain => by
    obtain ⟨jsons, written⟩ := itemsToJson_of_allPlain items (by simpa only [isPlain] using plain)
    exact ⟨.array jsons, by rw [toJson, written]; rfl⟩
  | .map entries, plain => by
    obtain ⟨fields, written⟩ :=
      entriesToJson_of_entriesPlain entries (by simpa only [isPlain] using plain)
    exact ⟨.object fields, by rw [toJson, written]; rfl⟩
  | .namespaceRef _, plain => by simp [isPlain] at plain
  | .varRef _ _, plain => by simp [isPlain] at plain
  | .function _, plain => by simp [isPlain] at plain

theorem itemsToJson_of_allPlain :
    ∀ items : List Value, allPlain items = true → ∃ jsons, itemsToJson items = .ok jsons
  | [], _ => ⟨[], rfl⟩
  | item :: rest, plain => by
    simp only [allPlain, Bool.and_eq_true] at plain
    obtain ⟨json, written⟩ := toJson_of_isPlain item plain.1
    obtain ⟨jsons, restWritten⟩ := itemsToJson_of_allPlain rest plain.2
    exact ⟨json :: jsons, by simp only [itemsToJson, written, restWritten]; rfl⟩

theorem entriesToJson_of_entriesPlain : ∀ entries : List (String × Value),
    entriesPlain entries = true → ∃ fields, entriesToJson entries = .ok fields
  | [], _ => ⟨[], rfl⟩
  | (key, value) :: rest, plain => by
    simp only [entriesPlain, Bool.and_eq_true] at plain
    obtain ⟨json, written⟩ := toJson_of_isPlain value plain.1
    obtain ⟨fields, restWritten⟩ := entriesToJson_of_entriesPlain rest plain.2
    exact ⟨(key, json) :: fields, by simp only [entriesToJson, written, restWritten]; rfl⟩

end

theorem ofInt?_cases {number : Int} {value : Value} (made : ofInt? number = some value) :
    ∃ fitted, value = .int fitted := by
  unfold ofInt? at made
  split at made
  · cases made
    exact ⟨_, rfl⟩
  · contradiction

/-- A number that is too large for a double stays code, so that no literal
denotes an infinite one. -/
theorem ofNumber?_cases {written : String} {value : Value} (made : ofNumber? written = some value) :
    (∃ number, value = .int number) ∨
      ∃ number : Float, number.isFinite = true ∧ value = .float number := by
  unfold ofNumber? at made
  simp only at made
  split at made
  · unfold ofOctal? at made
    split at made
    · simp only at made
      split at made
      · exact .inl (ofInt?_cases made)
      · contradiction
    · contradiction
  · split at made
    next whole =>
      cases made
      obtain ⟨number, -, fits⟩ := Option.bind_eq_some_iff.1 whole
      exact .inl (ofInt?_cases fits)
    next =>
      split at made
      · split at made
        · split at made
          next finite =>
            cases made
            exact .inr ⟨_, finite, rfl⟩
          · contradiction
        · contradiction
      · contradiction

theorem storable_of_ofNumber? {written : String} {value : Value}
    (made : ofNumber? written = some value) : value.Storable := by
  rcases ofNumber?_cases made with ⟨number, rfl⟩ | ⟨number, finite, rfl⟩
  · exact .int number
  · exact .float finite

mutual

theorem ofForm_storable : ∀ form : Form, (ofForm form).Storable
  | .atom .nil _ _ => by rw [ofForm]; exact .nil
  | .atom (.bool _) _ _ => by rw [ofForm]; exact .bool _
  | .atom (.number written) span metadata => by
    rw [ofForm]
    cases made : ofNumber? written with
    | none => exact .code _
    | some value => exact storable_of_ofNumber? made
  | .atom (.string _) _ _ => by rw [ofForm]; exact .text _
  | .atom (.keyword _) _ _ => by rw [ofForm]; exact .keyword _
  | .atom (.symbol _) _ _ => by rw [ofForm]; exact .symbol _
  | .atom (.character _) _ _ => by rw [ofForm]; exact .code _
  | .atom (.regex _) _ _ => by rw [ofForm]; exact .code _
  | .atom (.symbolicValue _) _ _ => by rw [ofForm]; exact .code _
  | .group .vector items _ _ => by rw [ofForm]; exact .seq (ofForms_storable items)
  | .group .list _ _ _ => by rw [ofForm]; exact .code _; simp
  | .group .set _ _ _ => by rw [ofForm]; exact .code _; simp
  | .group .function _ _ _ => by rw [ofForm]; exact .code _; simp
  | .map entries span metadata => by
    rw [ofForm]
    cases made : ofEntries? entries with
    | none => exact .code _
    | some fields =>
      exact .map fun entry member => ofEntries?_storable entries made entry (mem_sortEntries member)
  | .marked (.sigil .quote) (.atom leaf span metadata) _ _ => by
    rw [ofForm]; exact ofForm_storable (.atom leaf span metadata)
  | .marked (.sigil .quote) (.group _ _ _ _) _ _ => by rw [ofForm]; exact .code _
  | .marked (.sigil .quote) (.map _ _ _) _ _ => by rw [ofForm]; exact .code _
  | .marked (.sigil .quote) (.marked mark inmost span metadata) _ _ => by
    rw [ofForm]; exact ofForm_storable (.marked mark inmost span metadata)
  | .marked (.sigil .syntaxQuote) _ _ _ => by rw [ofForm]; exact .code _; simp
  | .marked (.sigil .unquote) _ _ _ => by rw [ofForm]; exact .code _; simp
  | .marked (.sigil .unquoteSplicing) _ _ _ => by rw [ofForm]; exact .code _; simp
  | .marked (.sigil .deref) _ _ _ => by rw [ofForm]; exact .code _; simp
  | .marked (.sigil .var) _ _ _ => by rw [ofForm]; exact .code _; simp
  | .marked (.tag _) _ _ _ => by rw [ofForm]; exact .code _; simp

theorem ofForms_storable : ∀ (forms : List Form), ∀ value ∈ ofForms forms, value.Storable
  | [], _, member => by simp [ofForms] at member
  | form :: rest, value, member => by
    rw [ofForms, List.mem_cons] at member
    rcases member with same | later
    · exact same ▸ ofForm_storable form
    · exact ofForms_storable rest value later

theorem ofEntries?_storable : ∀ (entries : List (Form × Form)) {fields : List (String × Value)},
    ofEntries? entries = some fields → ∀ field ∈ fields, field.2.Storable
  | [], _, made, _, member => by
    cases made
    contradiction
  | (key, value) :: rest, fields, made, field, member => by
    rw [ofEntries?] at made
    split at made
    next name others _ madeRest =>
      cases made
      rcases List.mem_cons.1 member with same | later
      · exact same ▸ ofForm_storable value
      · exact ofEntries?_storable rest madeRest field later
    · contradiction

end

end Value

def StorableField (key : String) (value : Value) : Prop :=
  ∀ stored, Record.normalizeField key value = some stored → stored.Storable

theorem StorableField.of_dropped {key : String} (dropped : Record.droppedKeys.contains key = true)
    (value : Value) : StorableField key value := by
  intro stored kept
  unfold Record.normalizeField at kept
  rw [if_pos dropped] at kept
  contradiction

theorem StorableField.of_printed {key : String} (printed : key = "ns" ∨ key = "name")
    (value : Value) : StorableField key value := by
  intro stored kept
  have notDropped : ¬ Record.droppedKeys.contains key = true := by
    rcases printed with rfl | rfl <;> decide
  unfold Record.normalizeField at kept
  rw [if_neg notDropped, if_pos printed] at kept
  cases kept
  exact .text _

theorem StorableField.of_storable {value : Value} (storable : value.Storable) (key : String) :
    StorableField key value := by
  intro stored kept
  unfold Record.normalizeField at kept
  split at kept
  · contradiction
  · split at kept
    · cases kept
      exact .text _
    · split at kept
      · split at kept
        · contradiction
        · cases kept
          exact .text _
      · split at kept
        · cases kept
          refine .seq fun item member => ?_
          obtain ⟨content, -, rfl⟩ := List.mem_map.1 member
          exact .text content
        · cases kept
          exact storable

abbrev StorableMetadata (metadata : Metadata) : Prop := metadata.All StorableField

namespace Record

theorem normalize_storable {metadata : Metadata} (storable : StorableMetadata metadata) :
    (normalize metadata).fields.All fun _ value => value.Storable := by
  intro field member
  obtain ⟨⟨key, value⟩, found, kept⟩ := List.mem_filterMap.1 member
  obtain ⟨stored, normalized, rfl⟩ := Option.map_eq_some_iff.1 kept
  exact storable _ found stored normalized

theorem toJson_of_plain {record : Record} (plain : record.fields.All fun _ value => value.isPlain = true) :
    ∃ json, record.toJson = .ok json := by
  obtain ⟨fields, made⟩ :=
    Value.entriesToJson_of_entriesPlain _ ((Value.entriesPlain_iff record.fields.entries).2 plain)
  exact ⟨.object fields, by rw [toJson, made]; rfl⟩

theorem toJson_of_storable {metadata : Metadata} (storable : StorableMetadata metadata) :
    ∃ json, (normalize metadata).toJson = .ok json :=
  toJson_of_plain fun field member => (normalize_storable storable field member).isPlain

end Record

end VarDoc
