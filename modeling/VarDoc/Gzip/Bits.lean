/-! Reading numbers from a sequence of bits. A reader never hands back more
bits than it was given. -/

set_option autoImplicit false

namespace VarDoc.Gzip

def bitsOfByte (byte : UInt8) : List Bool := (List.range 8).map byte.toNat.testBit

def bitsOf (bytes : List UInt8) : List Bool := bytes.flatMap bitsOfByte

structure BitReader (α : Type) where
  run : List Bool → Option (α × List Bool)
  shrinks {bits rest : List Bool} {value : α} :
    run bits = some (value, rest) → rest.length ≤ bits.length

namespace BitReader

variable {α β : Type}

def pure (value : α) : BitReader α where
  run bits := some (value, bits)
  shrinks ran := by
    obtain ⟨_, rfl⟩ := Prod.mk.inj (Option.some.inj ran)
    exact Nat.le_refl _

def bind (first : BitReader α) (next : α → BitReader β) : BitReader β where
  run bits :=
    match first.run bits with
    | some (value, rest) => (next value).run rest
    | none => none
  shrinks ran := by
    split at ran
    next value rest ranFirst =>
      exact Nat.le_trans ((next value).shrinks ran) (first.shrinks ranFirst)
    next => contradiction

instance : Monad BitReader where
  pure := pure
  bind := bind

def fail : BitReader α where
  run _ := none
  shrinks ran := by contradiction

def require (condition : Bool) : BitReader Unit := if condition then pure () else fail

def ofOption (value : Option α) : BitReader α :=
  match value with
  | some value => pure value
  | none => fail

def bit : BitReader Bool where
  run
    | [] => none
    | first :: rest => some (first, rest)
  shrinks {bits rest value} ran := by
    cases bits with
    | nil => contradiction
    | cons first tail =>
      obtain ⟨_, rfl⟩ := Prod.mk.inj (Option.some.inj ran)
      exact Nat.le_succ _

def number : Nat → BitReader Nat
  | 0 => pure 0
  | count + 1 => do
    let low ← bit
    let high ← number count
    return low.toNat + 2 * high

/-- Skips to the next whole byte, counted from the end. -/
def align : BitReader Unit where
  run bits := some ((), bits.drop (bits.length % 8))
  shrinks ran := by
    obtain ⟨_, rfl⟩ := Prod.mk.inj (Option.some.inj ran)
    simp

def bytesOnto (output : Array UInt8) : Nat → BitReader (Array UInt8)
  | 0 => pure output
  | count + 1 => do
    let byte ← number 8
    bytesOnto (output.push byte.toUInt8) count

end BitReader

end VarDoc.Gzip
