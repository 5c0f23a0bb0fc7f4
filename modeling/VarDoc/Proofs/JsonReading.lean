import VarDoc.Proofs.DecimalText
import VarDoc.Proofs.Dict

/-! JSON values are read back from their text. Numbers must be legible, and an
object that is to come back in its order must be in order. -/

set_option autoImplicit false

namespace VarDoc.Json

theorem inductionOn {motive : Json → Prop} (null : motive .null)
    (bool : ∀ value, motive (.bool value)) (number : ∀ value, motive (.number value))
    (string : ∀ text, motive (.string text))
    (array : ∀ items, (∀ item ∈ items, motive item) → motive (.array items))
    (object : ∀ fields, (∀ field ∈ fields, motive field.2) → motive (.object fields))
    (json : Json) : motive json :=
  @Json.rec motive (fun items => ∀ item ∈ items, motive item)
    (fun fields => ∀ field ∈ fields, motive field.2) (fun field => motive field.2)
    null bool number string array object
    (fun _ member => absurd member List.not_mem_nil)
    (fun _ _ first others => List.forall_mem_cons.2 ⟨first, others⟩)
    (fun _ member => absurd member List.not_mem_nil)
    (fun _ _ first others => List.forall_mem_cons.2 ⟨first, others⟩)
    (fun _ _ value => value) json

mutual

def depth : Json → Nat
  | .array items => itemsDepth items + 1
  | .object fields => fieldsDepth fields + 1
  | _ => 0

def itemsDepth : List Json → Nat
  | [] => 0
  | item :: rest => max item.depth (itemsDepth rest)

def fieldsDepth : List (String × Json) → Nat
  | [] => 0
  | (_, value) :: rest => max value.depth (fieldsDepth rest)

end

mutual

def numbers : Json → List Number
  | .number value => [value]
  | .array items => itemNumbers items
  | .object fields => fieldNumbers fields
  | _ => []

def itemNumbers : List Json → List Number
  | [] => []
  | item :: rest => item.numbers ++ itemNumbers rest

def fieldNumbers : List (String × Json) → List Number
  | [] => []
  | (_, value) :: rest => value.numbers ++ fieldNumbers rest

end

mutual

def written : Json → Raw
  | .null => .null
  | .bool value => .bool value
  | .number value => .number value.text
  | .string text => .string (escaped text.toList)
  | .array items => .array (writtenItems items)
  | .object fields => .object (writtenFields fields)

def writtenItems : List Json → List Raw
  | [] => []
  | item :: rest => item.written :: writtenItems rest

def writtenFields : List (String × Json) → List (List Char × Raw)
  | [] => []
  | (key, value) :: rest => (escaped key.toList, value.written) :: writtenFields rest

end

theorem renderItems_eq (items : List Json) : renderItems items = items.map render := by
  induction items with
  | nil => rfl
  | cons item rest ih => rw [renderItems, ih, List.map_cons]

theorem renderFields_eq (fields : List (String × Json)) :
    renderFields fields = fields.map fun field => renderString field.1 ++ ":" ++ field.2.render := by
  induction fields with
  | nil => rfl
  | cons field rest ih => rw [renderFields, ih, List.map_cons]

theorem itemNumbers_eq (items : List Json) : itemNumbers items = items.flatMap numbers := by
  induction items with
  | nil => rfl
  | cons item rest ih => rw [itemNumbers, ih, List.flatMap_cons]

theorem fieldNumbers_eq (fields : List (String × Json)) :
    fieldNumbers fields = fields.flatMap (numbers ·.2) := by
  induction fields with
  | nil => rfl
  | cons field rest ih => rw [fieldNumbers, ih, List.flatMap_cons]

theorem writtenItems_eq (items : List Json) : writtenItems items = items.map written := by
  induction items with
  | nil => rfl
  | cons item rest ih => rw [writtenItems, ih, List.map_cons]

theorem writtenFields_eq (fields : List (String × Json)) :
    writtenFields fields = fields.map fun field => (escaped field.1.toList, field.2.written) := by
  induction fields with
  | nil => rfl
  | cons field rest ih => rw [writtenFields, ih, List.map_cons]

mutual

theorem depth_written : ∀ json : Json, json.written.depth = json.depth
  | .null | .bool _ | .number _ | .string _ => rfl
  | .array items => by rw [written, Raw.depth, depth, itemsDepth_written items]
  | .object fields => by rw [written, Raw.depth, depth, fieldsDepth_written fields]

theorem itemsDepth_written :
    ∀ items : List Json, Raw.itemsDepth (writtenItems items) = itemsDepth items
  | [] => rfl
  | item :: rest => by
    rw [writtenItems, Raw.itemsDepth, itemsDepth, depth_written item, itemsDepth_written rest]

theorem fieldsDepth_written :
    ∀ fields : List (String × Json), Raw.fieldsDepth (writtenFields fields) = fieldsDepth fields
  | [] => rfl
  | (_, value) :: rest => by
    rw [writtenFields, Raw.fieldsDepth, fieldsDepth, depth_written value, fieldsDepth_written rest]

end

theorem itemsDepth_le_iff {items : List Json} {limit : Nat} :
    itemsDepth items ≤ limit ↔ ∀ item ∈ items, item.depth ≤ limit := by
  induction items with
  | nil => simp [itemsDepth]
  | cons item rest ih => rw [itemsDepth, Nat.max_le, ih, List.forall_mem_cons]

theorem fieldsDepth_le_iff {fields : List (String × Json)} {limit : Nat} :
    fieldsDepth fields ≤ limit ↔ ∀ field ∈ fields, field.2.depth ≤ limit := by
  induction fields with
  | nil => simp [fieldsDepth]
  | cons field rest ih => rw [fieldsDepth, Nat.max_le, ih, List.forall_mem_cons]

def Legible (json : Json) : Prop := ∀ number ∈ json.numbers, number.Legible

theorem Legible.item {items : List Json} (legible : (Json.array items).Legible) {item : Json}
    (member : item ∈ items) : item.Legible := by
  intro number found
  apply legible
  rw [numbers, itemNumbers_eq]
  exact List.mem_flatMap.2 ⟨item, member, found⟩

theorem Legible.field {fields : List (String × Json)} (legible : (Json.object fields).Legible)
    {field : String × Json} (member : field ∈ fields) : field.2.Legible := by
  intro number found
  apply legible
  rw [numbers, fieldNumbers_eq]
  exact List.mem_flatMap.2 ⟨field, member, found⟩

theorem tokens?_intercalate {α : Type} {items : List α} {text : α → List Char}
    {tokens : α → List Token} (each : ∀ item ∈ items, tokens? (text item) = some (tokens item))
    {rest : List Char} {more : List Token} (ends : Stops rest) (lexed : tokens? rest = some more) :
    tokens? (List.intercalate [','] (items.map text) ++ rest) =
      some (List.intercalate [.comma] (items.map tokens) ++ more) := by
  have others (items : List α) (each : ∀ item ∈ items, tokens? (text item) = some (tokens item)) :
      Stops (items.flatMap (',' :: text ·) ++ rest) ∧
      tokens? (items.flatMap (',' :: text ·) ++ rest) =
        some (items.flatMap (.comma :: tokens ·) ++ more) := by
    induction items with
    | nil => exact ⟨ends, lexed⟩
    | cons item items ih =>
      obtain ⟨endsLater, lexedLater⟩ :=
        ih fun other member => each other (List.mem_cons_of_mem _ member)
      have first := tokens?_append (each item List.mem_cons_self) endsLater lexedLater
      have comma : ',' ∈ stops := by decide
      simp only [List.flatMap_cons, List.cons_append, List.append_assoc]
      constructor
      · exact Stops.cons comma _
      · change (tokens? (text item ++ _)).map (Token.comma :: ·) = _
        rw [first]
        rfl
  cases items with
  | nil => exact lexed
  | cons item items =>
    obtain ⟨endsLater, lexedLater⟩ :=
      others items fun other member => each other (List.mem_cons_of_mem _ member)
    rw [List.map_cons, List.map_cons, intercalate_cons, intercalate_cons, List.append_assoc,
      List.append_assoc, List.flatMap_map, List.flatMap_map]
    exact tokens?_append (each item List.mem_cons_self) endsLater lexedLater

theorem tokens?_field (key : String) {value : Json} {tokens : List Token}
    (lexed : tokens? value.render.toList = some tokens) :
    tokens? (renderString key ++ ":" ++ value.render).toList =
      some (.string (escaped key.toList) :: .colon :: tokens) := by
  have colon : tokens? (':' :: value.render.toList) = some (.colon :: tokens) := by
    change (tokens? value.render.toList).map (Token.colon :: ·) = _
    rw [lexed]
    rfl
  rw [String.toList_append, String.toList_append, List.append_assoc]
  exact tokens?_append (tokens?_renderString key) (.cons (by decide) _) colon

theorem render_array (items : List Json) : (Json.array items).render.toList =
    '[' :: (List.intercalate [','] (items.map (·.render.toList)) ++ [']']) := by
  rw [render, renderItems_eq, String.toList_append, String.toList_append, String.toList_intercalate,
    List.map_map]
  rfl

theorem render_object (fields : List (String × Json)) : (Json.object fields).render.toList =
    '\x7b' :: (List.intercalate [',']
      (fields.map fun field => (renderString field.1 ++ ":" ++ field.2.render).toList) ++ ['\x7d']) := by
  rw [render, renderFields_eq, String.toList_append, String.toList_append,
    String.toList_intercalate, List.map_map]
  rfl

theorem tokens_array (items : List Json) : (Json.array items).written.tokens =
    .openArray :: (List.intercalate [.comma] (items.map (·.written.tokens)) ++ [.closeArray]) := by
  rw [written, Raw.tokens, writtenItems_eq, Raw.itemTokens_eq, List.map_map]
  rfl

theorem tokens_object (fields : List (String × Json)) : (Json.object fields).written.tokens =
    .openObject :: (List.intercalate [.comma] (fields.map fun field =>
      .string (escaped field.1.toList) :: .colon :: field.2.written.tokens) ++ [.closeObject]) := by
  rw [written, Raw.tokens, writtenFields_eq, Raw.fieldTokens_eq, List.map_map]
  rfl

theorem tokens?_render (json : Json) :
    tokens? json.render.toList = some json.written.tokens := by
  induction json using inductionOn with
  | null => rfl
  | bool value => cases value <;> rfl
  | number value => exact value.lexed
  | string text => exact tokens?_renderString text
  | array items each =>
    have close : tokens? [']'] = some [.closeArray] := rfl
    rw [render_array, tokens_array]
    change (tokens? (_ ++ [']'])).map (Token.openArray :: ·) = _
    rw [tokens?_intercalate each (.cons (by decide) []) close]
    rfl
  | object fields each =>
    have lexed : ∀ field ∈ fields,
        tokens? (renderString field.1 ++ ":" ++ field.2.render).toList =
          some (.string (escaped field.1.toList) :: .colon :: field.2.written.tokens) :=
      fun field member => tokens?_field field.1 (each field member)
    have close : tokens? ['\x7d'] = some [.closeObject] := rfl
    rw [render_object, tokens_object]
    change (tokens? (_ ++ ['\x7d'])).map (Token.openObject :: ·) = _
    rw [tokens?_intercalate lexed (.cons (by decide) []) close]
    rfl

/-- The text is read as what was written. -/
theorem Raw.read?_render (json : Json) : Raw.read? json.render = some json.written := by
  rw [Raw.read?, tokens?_render, Option.bind_some, Raw.ofTokens?_tokens]

inductive Sorted : Json → Prop where
  | null : Sorted .null
  | bool (value : Bool) : Sorted (.bool value)
  | number (value : Number) : Sorted (.number value)
  | string (text : String) : Sorted (.string text)
  | array {items : List Json} (each : ∀ item ∈ items, item.Sorted) : Sorted (.array items)
  | object {fields : List (String × Json)} (ordered : Ordered fields)
      (each : ∀ field ∈ fields, field.2.Sorted) : Sorted (.object fields)

theorem jsonItems?_eq {items : List Json}
    (each : ∀ item ∈ items, item.written.json? = some item) :
    Raw.jsonItems? (writtenItems items) = some items := by
  induction items with
  | nil => rfl
  | cons item rest ih =>
    rw [writtenItems, Raw.jsonItems?, each item List.mem_cons_self,
      ih fun other member => each other (List.mem_cons_of_mem _ member)]

theorem jsonFields?_eq {fields : List (String × Json)}
    (each : ∀ field ∈ fields, field.2.written.json? = some field.2) :
    Raw.jsonFields? (writtenFields fields) = some fields := by
  induction fields with
  | nil => rfl
  | cons field rest ih =>
    rw [writtenFields, Raw.jsonFields?, decodeString?_escaped, each field List.mem_cons_self,
      ih fun other member => each other (List.mem_cons_of_mem _ member)]

theorem json?_written {json : Json} (sorted : json.Sorted) (legible : json.Legible) :
    json.written.json? = some json := by
  induction sorted with
  | null | bool => rfl
  | number value =>
    rw [written, Raw.json?, (legible value (List.mem_singleton_self _)).denotes, Option.map_some]
  | string text => rw [written, Raw.json?, decodeString?_escaped, Option.map_some]
  | array _ ih =>
    rw [written, Raw.json?, jsonItems?_eq fun item member => ih item member (legible.item member),
      Option.map_some]
  | object ordered _ ih =>
    rw [written, Raw.json?,
      jsonFields?_eq fun field member => ih field member (legible.field member), Option.map_some,
      sortEntries_of_ordered ordered]

end VarDoc.Json
