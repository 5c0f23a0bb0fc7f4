import VarDoc.Decimal.Binary
import VarDoc.Form.Escape
import VarDoc.Json
import VarDoc.Json.Raw

/-! Giving a meaning to JSON text: strings without their escapes, numbers as
64-bit integers or doubles, objects ordered by key. -/

set_option autoImplicit false

namespace VarDoc.Json

def isHighSurrogate (unit : Nat) : Bool := 0xd800 ≤ unit && unit ≤ 0xdbff

def isLowSurrogate (unit : Nat) : Bool := 0xdc00 ≤ unit && unit ≤ 0xdfff

def shortEscape? : Char → Option Char
  | '"' => some '"'
  | '\\' => some '\\'
  | '/' => some '/'
  | 'b' => some '\x08'
  | 'f' => some '\x0c'
  | 'n' => some '\n'
  | 'r' => some '\r'
  | 't' => some '\t'
  | _ => none

def hexUnit? (text : List Char) : Option Nat :=
  let digits := text.take 4
  if digits.length = 4 && digits.all isHexDigit then some (ofDigits 16 digits) else none

/-- Reads the escape after a backslash: the character and how many characters
it takes. Two units that form a surrogate pair are one character; a surrogate
without its partner is none. -/
def readStringEscape? (first : Char) (rest : List Char) : Option (Char × Nat) :=
  if first = 'u' then
    (hexUnit? rest).bind fun unit =>
      if isHighSurrogate unit then
        match rest.drop 4 with
        | '\\' :: 'u' :: further =>
          (hexUnit? further).bind fun low =>
            if isLowSurrogate low then
              (characterOfCode? (0x10000 + (unit - 0xd800) * 0x400 + (low - 0xdc00))).map (·, 11)
            else none
        | _ => none
      else (characterOfCode? unit).map (·, 5)
  else (shortEscape? first).map (·, 1)

def decodeFrom (covered : Nat) : List Char → Option (List Char)
  | [] => some []
  | c :: rest =>
    match covered with
    | more + 1 => decodeFrom more rest
    | 0 =>
      if c = '\\' then
        match rest with
        | [] => none
        | first :: tail =>
          match readStringEscape? first tail with
          | some (denoted, length) => (decodeFrom length rest).map (denoted :: ·)
          | none => none
      else (decodeFrom 0 rest).map (c :: ·)

def decodeString? (body : List Char) : Option String := (decodeFrom 0 body).map String.ofList

/-- Adds digits to a significand as long as it fits 64 bits; tells how many
digits were taken. -/
def growSignificand (significand : Nat) : List Char → Nat × Nat
  | [] => (significand, 0)
  | c :: rest =>
    let grown := significand * 10 + digitValue c
    if grown < 0x10000000000000000 then
      let (result, taken) := growSignificand grown rest
      (result, taken + 1)
    else (significand, 0)

def powerOfTen (power : Nat) : Float := Decimal.nearest (Decimal.tenTo power) 1

def scaleDown (value : Float) (power : Nat) : Float :=
  if power ≤ 308 then value / powerOfTen power
  else if value == 0 then value
  else scaleDown (value / powerOfTen 308) (power - 308)
termination_by power

/-- A significand times a power of ten, with one rounding for each step; too
large a result is refused. -/
def scaleSignificand? (significand : Nat) (power : Int) : Option Float :=
  let value := Decimal.nearest significand 1
  if power < 0 then some (scaleDown value (-power).toNat)
  else if 308 < power then (if significand = 0 then some value else none)
  else
    let scaled := value * powerOfTen power.toNat
    if scaled.isInf then none else some scaled

def Number.ofFloat? (value : Float) : Option Number :=
  if finite : value.isFinite = true then some (.real value finite) else none

def Number.ofInt? (value : Int) : Option Number :=
  if fits : -0x8000000000000000 ≤ value ∧ value < 0x10000000000000000 then some (.whole value fits)
  else none

def NumberText.real? (negative : Bool) (significand : Nat) (power : Int) : Option Number :=
  (scaleSignificand? significand power).bind fun size =>
    Number.ofFloat? (if negative then -size else size)

/-- Whole numbers that fit 64 bits stay whole, except negative zero. Other
numbers keep as many digits as fit 64 bits; the rest of the whole part only
counts as places, the rest of the fraction not at all. -/
def NumberText.number? (text : NumberText) : Option Number :=
  let (whole, takenWhole) := growSignificand 0 text.whole
  let places := text.whole.length - takenWhole
  if text.fraction.isEmpty && text.exponent.isNone then
    if places = 0 && !(text.negative && (whole = 0 || 0x8000000000000000 < whole)) then
      Number.ofInt? (if text.negative then -(whole : Int) else whole)
    else NumberText.real? text.negative whole places
  else
    let (significand, takenFraction) := growSignificand whole text.fraction
    let exponent : Int := match text.exponent with
      | none => 0
      | some (true, digits) => -(ofDigits 10 digits : Int)
      | some (false, digits) => ofDigits 10 digits
    NumberText.real? text.negative significand ((places : Int) - takenFraction + exponent)

namespace Raw

mutual

def json? : Raw → Option Json
  | .null => some .null
  | .bool value => some (.bool value)
  | .number text => text.number?.map .number
  | .string body => (decodeString? body).map .string
  | .array items => (jsonItems? items).map .array
  | .object fields => (jsonFields? fields).map fun decoded => .object (sortEntries decoded)

def jsonItems? : List Raw → Option (List Json)
  | [] => some []
  | item :: rest =>
    match item.json?, jsonItems? rest with
    | some value, some values => some (value :: values)
    | _, _ => none

def jsonFields? : List (List Char × Raw) → Option (List (String × Json))
  | [] => some []
  | (key, item) :: rest =>
    match decodeString? key, item.json?, jsonFields? rest with
    | some name, some value, some values => some ((name, value) :: values)
    | _, _, _ => none

end

end Raw

def read? (text : String) : Option Json :=
  ((Raw.read? text).bind (Raw.shallow? 0)).bind Raw.json?

end VarDoc.Json
