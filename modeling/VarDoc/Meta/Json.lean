import VarDoc.Json.Reading
import VarDoc.Meta.Value

/-! Metadata values as JSON and back. Keywords, symbols and code become text,
so they come back as text. -/

set_option autoImplicit false

namespace VarDoc.Value

mutual

/-- The JSON of a value, or the first object of a running program in it. -/
def toJson : Value → Except Value Json
  | .nil => .ok .null
  | .bool value => .ok (.bool value)
  | .int value => .ok (Json.ofInt64 value)
  | .float value => .ok (Json.ofFloat value)
  | .text content => .ok (.string content)
  | .keyword name => .ok (.string name)
  | .symbol name => .ok (.string name)
  | .seq items => (itemsToJson items).map .array
  | .map entries => (entriesToJson entries).map .object
  | .code form => .ok (.string form.render)
  | .namespaceRef name => .error (.namespaceRef name)
  | .varRef space name => .error (.varRef space name)
  | .function form => .error (.function form)

def itemsToJson : List Value → Except Value (List Json)
  | [] => .ok []
  | item :: rest =>
    match item.toJson with
    | .error culprit => .error culprit
    | .ok json => (itemsToJson rest).map (json :: ·)

def entriesToJson : List (String × Value) → Except Value (List (String × Json))
  | [] => .ok []
  | (key, value) :: rest =>
    match value.toJson with
    | .error culprit => .error culprit
    | .ok json => (entriesToJson rest).map ((key, json) :: ·)

end

def unserializable (culprit : Value) : String := "cannot serialize " ++ culprit.display

/-- Whole numbers too large for a signed 64-bit integer become doubles. -/
def ofNumber : Json.Number → Value
  | .whole value _ =>
    if value < 0x8000000000000000 then .int (Int64.ofInt value)
    else .float (Decimal.nearest value.toNat 1)
  | .real value _ => .float value

mutual

def ofJson : Json → Value
  | .null => .nil
  | .bool value => .bool value
  | .number value => ofNumber value
  | .string content => .text content
  | .array items => .seq (ofJsonItems items)
  | .object fields => .map (ofJsonFields fields)

def ofJsonItems : List Json → List Value
  | [] => []
  | item :: rest => ofJson item :: ofJsonItems rest

def ofJsonFields : List (String × Json) → List (String × Value)
  | [] => []
  | (key, json) :: rest => (key, ofJson json) :: ofJsonFields rest

end

end VarDoc.Value
