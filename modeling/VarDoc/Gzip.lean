import VarDoc.Gzip.Checksum
import VarDoc.Gzip.Inflate

/-! Gzip files. Bytes are stored as they are, in blocks; a file compressed by
any means can be read. What follows the first member is left alone. -/

set_option autoImplicit false

namespace VarDoc.Gzip

def littleEndian : Nat → Nat → List UInt8
  | 0, _ => []
  | width + 1, value => (value % 256).toUInt8 :: littleEndian width (value / 256)

def valueOf : List UInt8 → Nat
  | [] => 0
  | byte :: rest => byte.toNat + 256 * valueOf rest

def blockLimit : Nat := 0xffff

def storedBlocks (bytes : List UInt8) : List UInt8 :=
  let stored (last : UInt8) (content : List UInt8) :=
    last :: littleEndian 2 content.length ++ littleEndian 2 (0xffff - content.length) ++ content
  if bytes.length ≤ blockLimit then stored 1 bytes
  else stored 0 (bytes.take blockLimit) ++ storedBlocks (bytes.drop blockLimit)
termination_by bytes.length
decreasing_by simp only [List.length_drop]; unfold blockLimit at *; omega

def plainHeader : List UInt8 := [0x1f, 0x8b, 8, 0, 0, 0, 0, 0, 0, 0xff]

def compress (bytes : List UInt8) : List UInt8 :=
  plainHeader ++ storedBlocks bytes ++ littleEndian 4 (checksum bytes).toNat ++
    littleEndian 4 bytes.length

def afterText? (bytes : List UInt8) : Option (List UInt8) :=
  match bytes.dropWhile (· != 0) with
  | _ :: rest => some rest
  | [] => none

def afterExtra? : List UInt8 → Option (List UInt8)
  | low :: high :: rest =>
    let length := valueOf [low, high]
    if length ≤ rest.length then some (rest.drop length) else none
  | _ => none

def afterCheck? (header : List UInt8) : List UInt8 → Option (List UInt8)
  | low :: high :: rest =>
    if valueOf [low, high] = (checksum header).toNat % 0x10000 then some rest else none
  | _ => none

/-- What follows the header of a member. The flags say which optional parts it
has; flags without a meaning are refused. -/
def afterHeader? (bytes : List UInt8) : Option (List UInt8) :=
  match bytes with
  | 0x1f :: 0x8b :: 8 :: flags :: _ :: _ :: _ :: _ :: _ :: _ :: rest => do
    let has (flag : Nat) : Bool := flags.toNat.testBit flag
    if 32 ≤ flags then none
    let rest ← if has 2 then afterExtra? rest else some rest
    let rest ← if has 3 then afterText? rest else some rest
    let rest ← if has 4 then afterText? rest else some rest
    if has 1 then afterCheck? (bytes.take (bytes.length - rest.length)) rest else some rest
  | _ => none

def trailer : BitReader (Nat × Nat) := do
  BitReader.align
  return (← BitReader.number 32, ← BitReader.number 32)

/-- The content of the first member, if it is whole and passes its checks. -/
def decompress? (bytes : List UInt8) : Option (List UInt8) := do
  let (output, rest) ← inflate #[] (bitsOf (← afterHeader? bytes))
  let ((check, length), _) ← trailer.run rest
  let content := output.toList
  if check = (checksum content).toNat ∧ length = content.length % 0x100000000 then
    some content
  else none

end VarDoc.Gzip
