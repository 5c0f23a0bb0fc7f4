import VarDoc.Decimal.Binary

/-! The shortest decimal that reads back as a given double. Of the decimals
with the fewest digits the nearest is taken; which of two equally near ones
it is, is for the format to say. -/

set_option autoImplicit false

namespace VarDoc

structure Decimal where
  digits : Nat
  power : Int
  deriving DecidableEq, Repr

namespace Decimal

inductive Tie where
  | upper
  | even
  deriving DecidableEq, Repr

/-- A double against the decimal grid of step `10 ^ power`: all numbers are
multiples of one common unit, so that they compare as whole numbers. -/
structure Grid where
  power : Int
  step : Nat
  value : Nat
  low : Nat
  high : Nat
  closed : Bool

/-- The reals that round to a double reach half way to its neighbours, and
take in both ends just when the mantissa is even. -/
def Grid.ofBinary (binary : Binary) (power : Int) : Grid :=
  let unit := twoTo (binary.power - 2).toNat * tenTo (-power).toNat
  let step := twoTo (2 - binary.power).toNat * tenTo power.toNat
  ⟨power, step, 4 * binary.mantissa * unit,
    (4 * binary.mantissa - (if binary.narrowBelow then 1 else 2)) * unit,
    (4 * binary.mantissa + 2) * unit, binary.mantissa % 2 = 0⟩

def Grid.readsBack (grid : Grid) (digits : Nat) : Bool :=
  let place := digits * grid.step
  if grid.closed then grid.low ≤ place && place ≤ grid.high
  else grid.low < place && place < grid.high

/-- The point of the grid nearest to the double, if it or its neighbour reads
back. -/
def Grid.pick? (tie : Tie) (grid : Grid) : Option Nat :=
  let below := grid.value / grid.step
  let above := below + 1
  let middle := (below + above) * grid.step
  let prefersAbove : Bool := if middle = 2 * grid.value then
      match tie with
      | .upper => true
      | .even => above % 2 = 0
    else middle < 2 * grid.value
  match grid.readsBack below, grid.readsBack above with
  | true, true => some (if prefersAbove then above else below)
  | true, false => some below
  | false, true => some above
  | false, false => none

/-- The power of ten of the first significant digit. The factor brings the
smallest double above one, so that counting digits is enough. -/
def leadingPower (binary : Binary) : Int :=
  let scaled :=
    binary.mantissa * twoTo binary.power.toNat * tenTo 340 / twoTo (-binary.power).toNat
  ((Nat.toDigits 10 scaled).length : Int) - 341

def trim (digits : Nat) (power : Int) : Decimal :=
  if positive : 0 < digits ∧ digits % 10 = 0 then trim (digits / 10) (power + 1)
  else ⟨digits, power⟩
termination_by digits
decreasing_by omega

def exact (binary : Binary) : Decimal :=
  trim (binary.mantissa * twoTo binary.power.toNat * Nat.pow 5 (-binary.power).toNat)
    (min binary.power 0)

/-- Seventeen digits always suffice. -/
def shortest (tie : Tie) (binary : Binary) : Decimal :=
  let lead := leadingPower binary
  let attempt (count : Nat) : Option Decimal :=
    let grid := Grid.ofBinary binary (lead - count)
    (grid.pick? tie).map (trim · grid.power)
  ((List.range 17).findSome? attempt).getD (exact binary)

end Decimal

end VarDoc
