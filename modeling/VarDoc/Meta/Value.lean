import VarDoc.Decimal.Notation
import VarDoc.Dict
import VarDoc.Form.Printer
import VarDoc.Text.Quoted

/-! Metadata values: the data attached to vars. Namespaces, vars and functions
are objects of a running program; every other value is plain data. Code that
only evaluation could turn into data is kept as a form. -/

set_option autoImplicit false

namespace VarDoc

inductive Value where
  | nil
  | bool (value : Bool)
  | int (value : Int64)
  | float (value : Float)
  | text (content : String)
  | keyword (name : String)
  | symbol (name : String)
  | seq (items : List Value)
  /-- Entries in increasing order of their keys. -/
  | map (entries : List (String × Value))
  | code (form : Form)
  | namespaceRef (name : String)
  | varRef (space name : String)
  | function (form : Form)

instance : Inhabited Value := ⟨.nil⟩

abbrev Metadata := Dict Value

namespace Value

def floatLayout : Decimal.Layout := ⟨.upper, -4, 15, ""⟩

def displayFloat (value : Float) : String :=
  if value.isFinite then floatLayout.finite value
  else if value.isNaN then "NaN"
  else if value < 0 then "-inf"
  else "inf"

mutual

def display : Value → String
  | .nil => "nil"
  | .bool true => "true"
  | .bool false => "false"
  | .int value => toString value.toInt
  | .float value => displayFloat value
  | .text content => Text.quote content
  | .keyword name => ":" ++ name
  | .symbol name => name
  | .seq items => "[" ++ " ".intercalate (displayItems items) ++ "]"
  | .map entries => "\x7b" ++ ", ".intercalate (displayEntries entries) ++ "\x7d"
  | .code form => form.render
  | .namespaceRef name => "#namespace[" ++ name ++ "]"
  | .varRef space name => "#'" ++ space ++ "/" ++ name
  | .function form => form.render

def displayItems : List Value → List String
  | [] => []
  | item :: rest => item.display :: displayItems rest

def displayEntries : List (String × Value) → List String
  | [] => []
  | (key, value) :: rest => (":" ++ key ++ " " ++ value.display) :: displayEntries rest

end

/-- Names and text as they are; other values as they are shown. -/
def toText : Value → String
  | .text content => content
  | .symbol name => name
  | .namespaceRef name => name
  | value => value.display

mutual

/-- No object of a running program is in the value, at any depth. -/
def isPlain : Value → Bool
  | .namespaceRef _ | .varRef _ _ | .function _ => false
  | .seq items => allPlain items
  | .map entries => entriesPlain entries
  | _ => true

def allPlain : List Value → Bool
  | [] => true
  | item :: rest => item.isPlain && allPlain rest

def entriesPlain : List (String × Value) → Bool
  | [] => true
  | (_, value) :: rest => value.isPlain && entriesPlain rest

end

mutual

/-- Equality of data. Doubles compare as numbers, so what is not a number
differs from itself. -/
def equal : Value → Value → Bool
  | .nil, .nil => true
  | .bool left, .bool right => left == right
  | .int left, .int right => left == right
  | .float left, .float right => left == right
  | .text left, .text right => left == right
  | .keyword left, .keyword right => left == right
  | .symbol left, .symbol right => left == right
  | .seq left, .seq right => equalItems left right
  | .map left, .map right => equalEntries left right
  | .code left, .code right => left == right
  | .namespaceRef left, .namespaceRef right => left == right
  | .varRef leftSpace leftName, .varRef rightSpace rightName =>
    leftSpace == rightSpace && leftName == rightName
  | .function left, .function right => left == right
  | _, _ => false

def equalItems : List Value → List Value → Bool
  | [], [] => true
  | left :: lefts, right :: rights => left.equal right && equalItems lefts rights
  | _, _ => false

def equalEntries : List (String × Value) → List (String × Value) → Bool
  | [], [] => true
  | (leftKey, left) :: lefts, (rightKey, right) :: rights =>
    leftKey == rightKey && left.equal right && equalEntries lefts rights
  | _, _ => false

end

end Value

end VarDoc
