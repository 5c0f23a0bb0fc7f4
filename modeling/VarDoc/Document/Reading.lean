import VarDoc.Document
import VarDoc.Json.Reading

/-! Documents from JSON text. A document is an object of its fields, or an
array of them in their order. Fields it does not know need only be well
written, however deep they nest; fields it knows occur once. -/

set_option autoImplicit false

namespace VarDoc.Document

open Json (Raw decodeString?)

def fieldNames : List String :=
  ["name", "url", "description", "version", "group", "scm", "license", "namespaces"]

def optionalText? : Raw → Option (Option String)
  | .null => some none
  | .string body => (decodeString? body).map some
  | _ => none

def optionalJson? : Raw → Option (Option Json)
  | .null => some none
  | raw => raw.json?.map some

def records? : Raw → Option (List Record)
  | .array items => items.mapM fun item => item.json?.bind Record.ofJson?
  | _ => none

def namespaces? : Raw → Option (Dict (List Record))
  | .object fields => do
    let entries ← fields.mapM fun (key, raw) => do return (← decodeString? key, ← records? raw)
    return Dict.ofList entries
  | _ => none

/-- The value of a field, or what it has when it is missing. The document is one
level around it. -/
def field? {α : Type} (fields : List (String × Raw)) (key : String) (missing : α)
    (read? : Raw → Option α) : Option α :=
  match lookupEntry key fields with
  | none => some missing
  | some raw => (raw.shallow? 1).bind read?

def ofFields? (fields : List (String × Raw)) : Option Document := do
  let text? (key : String) := field? fields key none optionalText?
  let json? (key : String) := field? fields key none optionalJson?
  return {
    name := ← text? "name"
    url := ← text? "url"
    description := ← text? "description"
    version := ← text? "version"
    group := ← text? "group"
    scm := ← json? "scm"
    license := ← json? "license"
    namespaces := ← field? fields "namespaces" ∅ namespaces? }

/-- The fields that a document knows; none of them may be repeated. -/
def knownFields? (fields : List (List Char × Raw)) : Option (List (String × Raw)) := do
  let named ← fields.mapM fun (key, raw) => (decodeString? key).map (·, raw)
  let known := named.filter fun (key, _) => fieldNames.contains key
  if (known.map Prod.fst).Nodup then return known else none

def ofRaw? : Raw → Option Document
  | .object fields => (knownFields? fields).bind ofFields?
  | .array items =>
    if items.length ≤ fieldNames.length then ofFields? (fieldNames.zip items) else none
  | _ => none

def read? (text : String) : Option Document := (Raw.read? text).bind ofRaw?

end VarDoc.Document
