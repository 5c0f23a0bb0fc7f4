import VarDoc.Meta.Json

/-! Records: the metadata of a var made ready for storage. Objects of a running
program are dropped, names and tags become text, and each argument list is
printed. -/

set_option autoImplicit false

namespace VarDoc

structure Record where
  fields : Metadata
  deriving Inhabited

namespace Record

/-- Fields that hold objects of a running program. -/
def droppedKeys : List String := ["protocol", "inline", "inline-arities"]

def printedArglists : Value → List String
  | .nil => []
  | .seq items => items.map Value.toText
  | .code form =>
    match form with
    | .group .list items _ _ | .group .vector items _ _ => items.map Form.render
    | _ => [form.render]
  | value => [value.toText]

/-- The stored form of one field; what depends on the key depends on nothing
else but its value. -/
def normalizeField (key : String) (value : Value) : Option Value :=
  if droppedKeys.contains key then none
  else if key = "ns" ∨ key = "name" then some (.text value.toText)
  else if key = "tag" then
    match value with
    | .nil => none
    | tag => some (.text tag.toText)
  else if key = "arglists" then some (.seq ((printedArglists value).map .text))
  else some value

def normalize (metadata : Metadata) : Record := ⟨metadata.filterMap normalizeField⟩

def get? (record : Record) (key : String) : Option Value := record.fields.get? key

def text? (record : Record) (key : String) : Option String :=
  match record.get? key with
  | some (.text content) => some content
  | _ => none

def name? (record : Record) : Option String := record.text? "name"

def namespace? (record : Record) : Option String := record.text? "ns"

def doc? (record : Record) : Option String := record.text? "doc"

def arglists (record : Record) : List String :=
  match record.get? "arglists" with
  | some (.seq items) => items.filterMap fun
    | .text content => some content
    | _ => none
  | _ => []

def equal (left right : Record) : Bool :=
  Value.equalEntries left.fields.entries right.fields.entries

def toJson (record : Record) : Except Value Json :=
  (Value.entriesToJson record.fields.entries).map .object

def ofJson? : Json → Option Record
  | .object fields => some ⟨Dict.ofList (Value.ofJsonFields fields)⟩
  | _ => none

end Record

end VarDoc
