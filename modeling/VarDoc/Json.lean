import VarDoc.Decimal.Notation
import VarDoc.Dict

/-! JSON values and their text. A number is whole and fits 64 bits, signed or
unsigned, or it is a finite double. The fields of an object keep their order. -/

set_option autoImplicit false

namespace VarDoc

namespace Json

inductive Number where
  | whole (value : Int) (fits : -0x8000000000000000 ≤ value ∧ value < 0x10000000000000000)
  | real (value : Float) (finite : value.isFinite = true)

/-- Numbers from 10^-5 up to 10^16 are written without an exponent; an
exponent has a sign. -/
def numberLayout : Decimal.Layout := ⟨.even, -5, 15, "+"⟩

def Number.render : Number → String
  | .whole value _ => toString value
  | .real value _ => numberLayout.finite value

def hexPair (code : Nat) : String :=
  String.ofList [Nat.digitChar (code / 16), Nat.digitChar (code % 16)]

def escape (c : Char) : String :=
  match c with
  | '"' => "\\\""
  | '\\' => "\\\\"
  | '\x08' => "\\b"
  | '\x0c' => "\\f"
  | '\n' => "\\n"
  | '\r' => "\\r"
  | '\t' => "\\t"
  | _ => if c.toNat < 0x20 then "\\u00" ++ hexPair c.toNat else c.toString

def renderString (text : String) : String :=
  "\"" ++ String.join (text.toList.map escape) ++ "\""

end Json

inductive Json where
  | null
  | bool (value : Bool)
  | number (value : Json.Number)
  | string (text : String)
  | array (items : List Json)
  | object (fields : List (String × Json))

namespace Json

mutual

def render : Json → String
  | .null => "null"
  | .bool true => "true"
  | .bool false => "false"
  | .number value => value.render
  | .string text => renderString text
  | .array items => "[" ++ ",".intercalate (renderItems items) ++ "]"
  | .object fields => "\x7b" ++ ",".intercalate (renderFields fields) ++ "\x7d"

def renderItems : List Json → List String
  | [] => []
  | item :: rest => item.render :: renderItems rest

def renderFields : List (String × Json) → List String
  | [] => []
  | (key, value) :: rest => (renderString key ++ ":" ++ value.render) :: renderFields rest

end

def ofInt64 (value : Int64) : Json :=
  .number (.whole value.toInt (by
    have least := value.le_toInt
    have greatest := value.toInt_lt
    omega))

/-- A double; what is not finite has no number and becomes null. -/
def ofFloat (value : Float) : Json :=
  if finite : value.isFinite = true then .number (.real value finite) else .null

end Json

end VarDoc
