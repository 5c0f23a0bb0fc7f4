import VarDoc.Decimal.Binary
import VarDoc.Form.Escape

/-! Reading a decimal number as the nearest double. -/

set_option autoImplicit false

namespace VarDoc.Decimal

def allDigits (text : List Char) : Bool := !text.isEmpty && text.all Char.isDigit

def signed? : List Char → Option Int
  | '-' :: digits => if allDigits digits then some (-(ofDigits 10 digits : Int)) else none
  | '+' :: digits => if allDigits digits then some (ofDigits 10 digits : Int) else none
  | digits => if allDigits digits then some (ofDigits 10 digits : Int) else none

/-- The double nearest to `digits * 10 ^ power`, where `digits` has `count`
decimal digits. Powers far outside the range of doubles are not computed. -/
def scaled (digits count : Nat) (power : Int) : Float :=
  if digits = 0 then nearest 0 1
  else if 400 < power + count then Float.ofBits infinityBits.toUInt64
  else if power + count < -400 then nearest 0 1
  else nearest (digits * tenTo power.toNat) (tenTo (-power).toNat)

def unsigned? (text : List Char) : Option Float :=
  let whole := text.takeWhile Char.isDigit
  let afterWhole := text.dropWhile Char.isDigit
  let (fraction, afterFraction) := match afterWhole with
    | '.' :: rest => (rest.takeWhile Char.isDigit, rest.dropWhile Char.isDigit)
    | _ => ([], afterWhole)
  let digits := whole ++ fraction
  let value (exponent : Int) := scaled (ofDigits 10 digits) digits.length (exponent - fraction.length)
  if digits.isEmpty then none
  else match afterFraction with
    | [] => some (value 0)
    | mark :: exponent =>
      if mark = 'e' ∨ mark = 'E' then (signed? exponent).map value else none

def lower (text : List Char) : List Char := text.map Char.toLower

/-- A number with an optional sign. The words for infinity and for no number
may be written in any case. -/
def read? (text : String) : Option Float :=
  let (negative, size) := match text.toList with
    | '-' :: rest => (true, rest)
    | '+' :: rest => (false, rest)
    | rest => (false, rest)
  let value := match lower size with
    | ['i', 'n', 'f'] | ['i', 'n', 'f', 'i', 'n', 'i', 't', 'y'] =>
      some (Float.ofBits infinityBits.toUInt64)
    | ['n', 'a', 'n'] => some (Float.ofBits 0x7ff8000000000000)
    | _ => unsigned? size
  value.map fun value => if negative then -value else value

end VarDoc.Decimal
