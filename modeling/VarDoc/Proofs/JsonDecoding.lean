import VarDoc.Proofs.JsonReading
import VarDoc.Proofs.Traversal

/-! What JSON text denotes: its objects are in order, and it nests no deeper than
its text. -/

set_option autoImplicit false

namespace VarDoc

namespace Json.Raw

theorem jsonItems?_eq_mapM (items : List Raw) : jsonItems? items = items.mapM json? := by
  induction items with
  | nil => rfl
  | cons item rest ih =>
    rw [jsonItems?, List.mapM_cons, ih]
    cases item.json? with
    | none => rfl
    | some value => cases rest.mapM json? <;> rfl

def decodeField? (field : List Char × Raw) : Option (String × Json) :=
  (decodeString? field.1).bind fun name => field.2.json?.map (name, ·)

theorem jsonFields?_eq_mapM (fields : List (List Char × Raw)) :
    jsonFields? fields = fields.mapM decodeField? := by
  induction fields with
  | nil => rfl
  | cons field rest ih =>
    rw [jsonFields?, List.mapM_cons, ih, decodeField?]
    cases decodeString? field.1 with
    | none => rfl
    | some name =>
      cases field.2.json? with
      | none => rfl
      | some value => cases rest.mapM decodeField? <;> rfl

end Json.Raw

namespace Json

structure Tidy (json : Json) (limit : Nat) : Prop where
  sorted : json.Sorted
  depth : json.depth ≤ limit

theorem Tidy.array {items : List Json} {limit : Nat} (each : ∀ item ∈ items, item.Tidy limit) :
    (Json.array items).Tidy (limit + 1) where
  sorted := .array fun item member => (each item member).sorted
  depth := Nat.succ_le_succ (itemsDepth_le_iff.2 fun item member => (each item member).depth)

theorem Tidy.object {fields : List (String × Json)} {limit : Nat} (ordered : Ordered fields)
    (each : ∀ field ∈ fields, field.2.Tidy limit) : (Json.object fields).Tidy (limit + 1) where
  sorted := .object ordered fun field member => (each field member).sorted
  depth := Nat.succ_le_succ (fieldsDepth_le_iff.2 fun field member => (each field member).depth)

theorem Tidy.items {items : List Json} {limit : Nat} (tidy : (Json.array items).Tidy limit) :
    ∃ inner, limit = inner + 1 ∧ ∀ item ∈ items, item.Tidy inner := by
  obtain ⟨sorted, shallow⟩ := tidy
  cases sorted with
  | array each =>
    rw [Json.depth] at shallow
    refine ⟨limit - 1, by omega, fun item member => ⟨each item member, ?_⟩⟩
    exact itemsDepth_le_iff.1 (by omega) item member

theorem Tidy.fields {fields : List (String × Json)} {limit : Nat}
    (tidy : (Json.object fields).Tidy limit) :
    ∃ inner, limit = inner + 1 ∧ Ordered fields ∧ ∀ field ∈ fields, field.2.Tidy inner := by
  obtain ⟨sorted, shallow⟩ := tidy
  cases sorted with
  | object ordered each =>
    rw [Json.depth] at shallow
    refine ⟨limit - 1, by omega, ordered, fun field member => ⟨each field member, ?_⟩⟩
    exact fieldsDepth_le_iff.1 (by omega) field member

theorem Tidy.mono {json : Json} {limit larger : Nat} (tidy : json.Tidy limit)
    (below : limit ≤ larger) : json.Tidy larger :=
  ⟨tidy.sorted, Nat.le_trans tidy.depth below⟩

namespace Raw

/-- What a text denotes is in order and nests no deeper than the text. -/
def DenotesTidy (raw : Raw) : Prop := ∀ json, raw.json? = some json → json.Tidy raw.depth

theorem denotesTidy_array {items : List Raw} (each : ∀ item ∈ items, item.DenotesTidy) :
    (Raw.array items).DenotesTidy := by
  intro json denotes
  obtain ⟨jsons, decoded, rfl⟩ := Option.map_eq_some_iff.1 denotes
  refine .array fun json member => ?_
  rw [jsonItems?_eq_mapM] at decoded
  obtain ⟨item, found, denotes⟩ := exists_of_mem_mapM_some decoded member
  exact (each item found json denotes).mono (itemsDepth_le_iff.1 (Nat.le_refl _) item found)

/-- Sorting may drop fields, and keeps no field that was not there. -/
theorem denotesTidy_object {fields : List (List Char × Raw)}
    (each : ∀ field ∈ fields, field.2.DenotesTidy) : (Raw.object fields).DenotesTidy := by
  intro json denotes
  obtain ⟨decoded, read, rfl⟩ := Option.map_eq_some_iff.1 denotes
  refine .object (ordered_sortEntries decoded) fun entry member => ?_
  rw [jsonFields?_eq_mapM] at read
  obtain ⟨field, found, named⟩ := exists_of_mem_mapM_some read (mem_sortEntries member)
  obtain ⟨name, -, made⟩ := Option.bind_eq_some_iff.1 named
  obtain ⟨json, denotes, rfl⟩ := Option.map_eq_some_iff.1 made
  exact (each field found json denotes).mono (fieldsDepth_le_iff.1 (Nat.le_refl _) field found)

mutual

theorem denotesTidy : ∀ raw : Raw, raw.DenotesTidy
  | .null => by
    rintro json ⟨⟩
    exact ⟨.null, Nat.le_refl _⟩
  | .bool value => by
    rintro json ⟨⟩
    exact ⟨.bool value, Nat.le_refl _⟩
  | .number _ => by
    intro json denotes
    obtain ⟨number, -, rfl⟩ := Option.map_eq_some_iff.1 denotes
    exact ⟨.number number, Nat.le_refl _⟩
  | .string _ => by
    intro json denotes
    obtain ⟨text, -, rfl⟩ := Option.map_eq_some_iff.1 denotes
    exact ⟨.string text, Nat.le_refl _⟩
  | .array items => denotesTidy_array (items_denoteTidy items)
  | .object fields => denotesTidy_object (fields_denoteTidy fields)

theorem items_denoteTidy : ∀ items : List Raw, ∀ item ∈ items, item.DenotesTidy
  | first :: rest => List.forall_mem_cons.2 ⟨denotesTidy first, items_denoteTidy rest⟩
  | [] => fun _ member => absurd member List.not_mem_nil

theorem fields_denoteTidy :
    ∀ fields : List (List Char × Raw), ∀ field ∈ fields, field.2.DenotesTidy
  | (_, value) :: rest => List.forall_mem_cons.2 ⟨denotesTidy value, fields_denoteTidy rest⟩
  | [] => fun _ member => absurd member List.not_mem_nil

end

theorem eq_null_of_json? {raw : Raw} (denotes : raw.json? = some .null) : raw = .null := by
  cases raw with
  | null => rfl
  | bool => simp [json?] at denotes
  | number | string | array | object => simp [json?] at denotes

end Raw

end Json

end VarDoc
