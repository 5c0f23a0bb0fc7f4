import VarDoc.Decimal.Reading
import VarDoc.Meta.Value

/-! The data that a form denotes without being evaluated. -/

set_option autoImplicit false

namespace VarDoc

def splitSign : List Char → Bool × List Char
  | '-' :: rest => (true, rest)
  | '+' :: rest => (false, rest)
  | text => (false, text)

def isOctalLiteral (digits : List Char) : Bool :=
  1 < digits.length && digits.head? == some '0' && digits.all Char.isDigit

namespace Value

def ofInt? (value : Int) : Option Value :=
  if -0x8000000000000000 ≤ value ∧ value < 0x8000000000000000 then some (.int (Int64.ofInt value)) else none

/-- An integer in base eight. Its size alone must be below 2^63. -/
def ofOctal? (negative : Bool) (digits : List Char) : Option Value :=
  if digits.all isOctalDigit then
    let size : Int := ofDigits 8 digits
    if size < 0x8000000000000000 then ofInt? (if negative then -size else size) else none
  else none

/-- Integers of 64 bits and finite doubles are numbers; ratios, big numbers and
numbers with a radix are not. -/
def ofNumber? (text : String) : Option Value :=
  let characters := text.toList
  let (negative, digits) := splitSign characters
  if isOctalLiteral digits then ofOctal? negative (digits.drop 1)
  else
    match (Decimal.signed? characters).bind ofInt? with
    | some value => some value
    | none =>
      if characters.any (fun c => c == '.' || c == 'e' || c == 'E') &&
          characters.getLast? != some 'M' then
        match Decimal.read? text with
        | some value => if value.isFinite then some (.float value) else none
        | none => none
      else none

def keyText? : Form → Option String
  | .atom (.keyword name) _ _ => some name
  | .atom (.string content) _ _ => some content
  | _ => none

mutual

def ofForm : Form → Value
  | .atom leaf span metadata =>
    match leaf with
    | .nil => .nil
    | .bool value => .bool value
    | .number written => (ofNumber? written).getD (.code (.atom leaf span metadata))
    | .string content => .text content
    | .keyword name => .keyword name
    | .symbol name => .symbol name
    | .character _ | .regex _ | .symbolicValue _ => .code (.atom leaf span metadata)
  | .group .vector items _ _ => .seq (ofForms items)
  | .group shape items span metadata => .code (.group shape items span metadata)
  | .map entries span metadata =>
    match ofEntries? entries with
    | some fields => .map (sortEntries fields)
    | none => .code (.map entries span metadata)
  | .marked (.sigil .quote) inner _ _ =>
    match inner with
    | .group shape items span metadata => .code (.group shape items span metadata)
    | .map entries span metadata => .code (.map entries span metadata)
    | .atom leaf span metadata => ofForm (.atom leaf span metadata)
    | .marked mark inmost span metadata => ofForm (.marked mark inmost span metadata)
  | .marked mark inner span metadata => .code (.marked mark inner span metadata)

def ofForms : List Form → List Value
  | [] => []
  | form :: rest => ofForm form :: ofForms rest

def ofEntries? : List (Form × Form) → Option (List (String × Value))
  | [] => some []
  | (key, value) :: rest =>
    match keyText? key, ofEntries? rest with
    | some name, some fields => some ((name, ofForm value) :: fields)
    | _, _ => none

end

end Value

end VarDoc
