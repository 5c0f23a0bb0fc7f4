/-! Doubles as exact numbers. A finite double is a whole number of times a
power of two; a quotient of whole numbers is rounded to the nearest double, a
half going to the even neighbour. -/

set_option autoImplicit false

namespace VarDoc.Decimal

/-- The size of a finite double other than zero, as `mantissa * 2 ^ power`. -/
structure Binary where
  mantissa : Nat
  power : Int
  /-- The next smaller double is only half as far away as the next larger. -/
  narrowBelow : Bool
  deriving DecidableEq, Repr

def twoTo (power : Nat) : Nat := Nat.pow 2 power

def tenTo (power : Nat) : Nat := Nat.pow 10 power

def fractionBits : Nat := 52

/-- The sign bit does not matter; the exponent field must not be all ones. -/
def Binary.ofBits (bits : Nat) : Binary :=
  let fraction : Nat := bits % twoTo fractionBits
  let exponent : Nat := bits / twoTo fractionBits % twoTo 11
  if exponent = 0 then ⟨fraction, -1074, false⟩
  else ⟨fraction + twoTo fractionBits, (exponent : Int) - 1075, fraction = 0 && 1 < exponent⟩

def roundHalfEven (dividend divisor : Nat) : Nat :=
  let quotient := dividend / divisor
  let twice := 2 * (dividend % divisor)
  if twice < divisor then quotient
  else if divisor < twice then quotient + 1
  else quotient + quotient % 2

def floorLog2 (dividend divisor : Nat) : Int :=
  let guess : Int := (dividend.log2 : Int) - divisor.log2
  if divisor * twoTo guess.toNat ≤ dividend * twoTo (-guess).toNat then guess else guess - 1

def infinityBits : Nat := 0x7ff * twoTo fractionBits

/-- Bits of the double nearest to `dividend / divisor`. Where the exponent
field overflows the result is infinity. -/
def nearestBits (dividend divisor : Nat) : Nat :=
  if dividend = 0 then 0
  else
    let power := max (floorLog2 dividend divisor - 52) (-1074)
    let mantissa := roundHalfEven (dividend * twoTo (-power).toNat) (divisor * twoTo power.toNat)
    min ((power + 1074).toNat * twoTo fractionBits + mantissa) infinityBits

def nearest (dividend divisor : Nat) : Float :=
  Float.ofBits (nearestBits dividend divisor).toUInt64

end VarDoc.Decimal
