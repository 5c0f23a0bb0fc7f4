import VarDoc.Decimal.Shortest

/-! How the digits of a double are laid out as text. -/

set_option autoImplicit false

namespace VarDoc.Decimal

structure Layout where
  tie : Tie
  /-- Powers of the leading digit that are written without an exponent. -/
  positionalFrom : Int
  positionalTo : Int
  /-- What stands before an exponent that is not negative. -/
  exponentPlus : String
  deriving Repr

def zeros (count : Nat) : String := String.ofList (List.replicate count '0')

def positional (decimal : Decimal) : String :=
  let digits := Nat.toDigits 10 decimal.digits
  if 0 ≤ decimal.power then
    String.ofList digits ++ zeros decimal.power.toNat ++ ".0"
  else
    let places := (-decimal.power).toNat
    if places < digits.length then
      String.ofList (digits.take (digits.length - places)) ++ "." ++
        String.ofList (digits.drop (digits.length - places))
    else "0." ++ zeros (places - digits.length) ++ String.ofList digits

def scientific (layout : Layout) (decimal : Decimal) (lead : Int) : String :=
  let digits := Nat.toDigits 10 decimal.digits
  let fraction := digits.drop 1
  String.ofList (digits.take 1) ++
    (if fraction.isEmpty then "" else "." ++ String.ofList fraction) ++ "e" ++
    (if lead < 0 then "" else layout.exponentPlus) ++ toString lead

def Layout.size (layout : Layout) (binary : Binary) : String :=
  let decimal := shortest layout.tie binary
  let lead := decimal.power + (Nat.toDigits 10 decimal.digits).length - 1
  if layout.positionalFrom ≤ lead ∧ lead ≤ layout.positionalTo then positional decimal
  else scientific layout decimal lead

def Layout.finite (layout : Layout) (value : Float) : String :=
  let bits := value.toBits.toNat
  let sign := if twoTo 63 ≤ bits then "-" else ""
  sign ++ (if bits % twoTo 63 = 0 then "0.0" else layout.size (Binary.ofBits bits))

end VarDoc.Decimal
