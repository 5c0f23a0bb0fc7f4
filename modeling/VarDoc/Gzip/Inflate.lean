import VarDoc.Gzip.PrefixCode

/-! Decompression of a sequence of blocks. A block holds bytes as they are, or
symbols of a prefix code; a symbol is a byte, the end of the block, or the
length of a stretch to repeat from what came before. -/

set_option autoImplicit false

namespace VarDoc.Gzip

inductive Meaning where
  | byte (value : UInt8)
  | endOfBlock
  /-- A stretch to repeat, its length given by a row of a table. -/
  | stretch (row : Nat)

/-- Bytes come first, then the end of the block, then the stretches. -/
def Meaning.ofSymbol (symbol : Nat) : Meaning :=
  if symbol < 256 then .byte symbol.toUInt8
  else if symbol = 256 then .endOfBlock
  else .stretch (symbol - 257)

def lengthTable : List (Nat × Nat) :=
  [(3, 0), (4, 0), (5, 0), (6, 0), (7, 0), (8, 0), (9, 0), (10, 0), (11, 1), (13, 1), (15, 1),
    (17, 1), (19, 2), (23, 2), (27, 2), (31, 2), (35, 3), (43, 3), (51, 3), (59, 3), (67, 4),
    (83, 4), (99, 4), (115, 4), (131, 5), (163, 5), (195, 5), (227, 5), (258, 0)]

def distanceTable : List (Nat × Nat) :=
  [(1, 0), (2, 0), (3, 0), (4, 0), (5, 1), (7, 1), (9, 2), (13, 2), (17, 3), (25, 3), (33, 4),
    (49, 4), (65, 5), (97, 5), (129, 6), (193, 6), (257, 7), (385, 7), (513, 8), (769, 8),
    (1025, 9), (1537, 9), (2049, 10), (3073, 10), (4097, 11), (6145, 11), (8193, 12),
    (12289, 12), (16385, 13), (24577, 13)]

def lengthOrder : List Nat := [16, 17, 18, 0, 8, 7, 9, 6, 10, 5, 11, 4, 12, 3, 13, 2, 14, 1, 15]

structure BlockCodes where
  symbols : PrefixCode
  distances : PrefixCode

namespace BlockCodes

def ofLengths? (symbols distances : List Nat) : Option BlockCodes := do
  return ⟨← PrefixCode.ofLengths? symbols, ← PrefixCode.ofLengths? distances⟩

def fixed? : Option BlockCodes :=
  ofLengths?
    (List.replicate 144 8 ++ List.replicate 112 9 ++ List.replicate 24 7 ++ List.replicate 8 8)
    (List.replicate 32 5)

end BlockCodes

def tableValue (table : List (Nat × Nat)) (index : Nat) : BitReader Nat := do
  let (least, extra) ← BitReader.ofOption table[index]?
  return least + (← BitReader.number extra)

def stretch (codes : BlockCodes) (row : Nat) : BitReader (Nat × Nat) := do
  let length ← tableValue lengthTable row
  let distance ← tableValue distanceTable (← codes.distances.symbol)
  return (length, distance)

/-- Repeats bytes from some distance back, which may be among those just
written. -/
def repeatBytes (distance : Nat) : Nat → Array UInt8 → Option (Array UInt8)
  | 0, output => some output
  | count + 1, output =>
    if distance ≤ output.size then
      match output[output.size - distance]? with
      | some byte => repeatBytes distance count (output.push byte)
      | none => none
    else none

def inflateSymbols (codes : BlockCodes) (output : Array UInt8) (bits : List Bool) :
    Option (Array UInt8 × List Bool) :=
  match _decoded : codes.symbols.decode? bits with
  | none => none
  | some (symbol, rest) =>
    match Meaning.ofSymbol symbol with
    | .byte value => inflateSymbols codes (output.push value) rest
    | .endOfBlock => some (output, rest)
    | .stretch row =>
      match _read : (stretch codes row).run rest with
      | none => none
      | some ((length, distance), further) =>
        match repeatBytes distance length output with
        | none => none
        | some grown => inflateSymbols codes grown further
termination_by bits.length
decreasing_by
  · exact PrefixCode.length_lt_of_decode? _decoded
  · exact Nat.lt_of_le_of_lt ((stretch codes row).shrinks _read)
      (PrefixCode.length_lt_of_decode? _decoded)

theorem length_le_of_inflateSymbols {codes : BlockCodes} {output result : Array UInt8}
    {bits rest : List Bool} (inflated : inflateSymbols codes output bits = some (result, rest)) :
    rest.length ≤ bits.length := by
  fun_induction inflateSymbols codes output bits with
  | case1 => contradiction
  | case2 output bits symbol further decoded value _ ih =>
    exact Nat.le_trans (ih inflated) (Nat.le_of_lt (PrefixCode.length_lt_of_decode? decoded))
  | case3 output bits symbol further decoded _ =>
    obtain ⟨_, rfl⟩ := Prod.mk.inj (Option.some.inj inflated)
    exact Nat.le_of_lt (PrefixCode.length_lt_of_decode? decoded)
  | case4 => contradiction
  | case5 => contradiction
  | case6 output bits symbol tail decoded row _ length distance further read grown _ ih =>
    exact Nat.le_trans (ih inflated)
      (Nat.le_trans ((stretch codes row).shrinks read)
        (Nat.le_of_lt (PrefixCode.length_lt_of_decode? decoded)))

def compressedBlock (codes : BlockCodes) (output : Array UInt8) : BitReader (Array UInt8) where
  run := inflateSymbols codes output
  shrinks := length_le_of_inflateSymbols

def storedBlock (output : Array UInt8) : BitReader (Array UInt8) := do
  BitReader.align
  let length ← BitReader.number 16
  let complement ← BitReader.number 16
  BitReader.require (length + complement == 0xffff)
  BitReader.bytesOnto output length

def numbers (width : Nat) : Nat → BitReader (List Nat)
  | 0 => pure []
  | count + 1 => do
    let first ← BitReader.number width
    let rest ← numbers width count
    return first :: rest

/-- The lengths that one symbol of the code for lengths stands for, given
those before it, newest first. -/
def lengthRun (symbol : Nat) (before : List Nat) : BitReader (List Nat) :=
  if symbol < 16 then pure [symbol]
  else if symbol = 16 then do
    let last ← BitReader.ofOption before.head?
    return List.replicate (3 + (← BitReader.number 2)) last
  else if symbol = 17 then do return List.replicate (3 + (← BitReader.number 3)) 0
  else do return List.replicate (11 + (← BitReader.number 7)) 0

/-- Reads code lengths until there are `total` of them; no more than `steps`
symbols are needed. Lengths already read come newest first. -/
def codeLengths (code : PrefixCode) (total : Nat) : Nat → List Nat → BitReader (List Nat)
  | 0, read => do
    BitReader.require (read.length == total)
    return read.reverse
  | steps + 1, read =>
    if read.length < total then do
      let run ← lengthRun (← code.symbol) read
      codeLengths code total steps (run ++ read)
    else codeLengths code total 0 read

def ownCodes : BitReader BlockCodes := do
  let symbols := 257 + (← BitReader.number 5)
  let distances := 1 + (← BitReader.number 5)
  let stored ← numbers 3 (4 + (← BitReader.number 4))
  BitReader.require (symbols ≤ 286 && distances ≤ 30)
  let ordered := lengthOrder.zip stored
  let lengthOf (symbol : Nat) := ((ordered.find? (·.1 == symbol)).map Prod.snd).getD 0
  let code ← BitReader.ofOption (PrefixCode.ofLengths? ((List.range 19).map lengthOf))
  let lengths ← codeLengths code (symbols + distances) (symbols + distances) []
  BitReader.ofOption (BlockCodes.ofLengths? (lengths.take symbols) (lengths.drop symbols))

def block (output : Array UInt8) : BitReader (Array UInt8) := do
  match ← BitReader.number 2 with
  | 0 => storedBlock output
  | 1 => compressedBlock (← BitReader.ofOption BlockCodes.fixed?) output
  | 2 => compressedBlock (← ownCodes) output
  | _ => BitReader.fail

def inflate (output : Array UInt8) : List Bool → Option (Array UInt8 × List Bool)
  | [] => none
  | last :: rest =>
    match _ran : (block output).run rest with
    | none => none
    | some (grown, further) => if last then some (grown, further) else inflate grown further
termination_by bits => bits.length
decreasing_by exact Nat.lt_succ_of_le ((block output).shrinks _ran)

end VarDoc.Gzip
