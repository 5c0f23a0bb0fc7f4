import VarDoc.Gzip

/-! Decompression undoes compression. A compressed file is read byte by byte:
its header, the stored blocks up to the last one, and the checksum and length
of what they hold. -/

set_option autoImplicit false

namespace VarDoc.Gzip

namespace BitReader

variable {α β : Type}

theorem run_pure (value : α) (bits : List Bool) :
    (Pure.pure value : BitReader α).run bits = some (value, bits) := rfl

theorem run_bind {first : BitReader α} {value : α} {bits rest : List Bool}
    (ran : first.run bits = some (value, rest)) (next : α → BitReader β) :
    (first >>= next).run bits = (next value).run rest := by
  change (BitReader.bind first next).run bits = _
  rw [BitReader.bind]
  dsimp only
  rw [ran]

end BitReader

theorem bits_value : ∀ value < 256, (value.testBit 0).toNat + 2 * ((value.testBit 1).toNat +
    2 * ((value.testBit 2).toNat + 2 * ((value.testBit 3).toNat + 2 * ((value.testBit 4).toNat +
    2 * ((value.testBit 5).toNat + 2 * ((value.testBit 6).toNat +
    2 * (value.testBit 7).toNat)))))) = value := by
  decide +kernel

theorem run_number_succ (count : Nat) (first : Bool) {bits rest : List Bool} {value : Nat}
    (ran : (BitReader.number count).run bits = some (value, rest)) :
    (BitReader.number (count + 1)).run (first :: bits) = some (first.toNat + 2 * value, rest) := by
  have low : BitReader.bit.run (first :: bits) = some (first, bits) := rfl
  rw [BitReader.number, BitReader.run_bind low, BitReader.run_bind ran, BitReader.run_pure]

theorem shift_byte (b₀ b₁ b₂ b₃ b₄ b₅ b₆ b₇ value : Nat) :
    b₀ + 2 * (b₁ + 2 * (b₂ + 2 * (b₃ + 2 * (b₄ + 2 * (b₅ + 2 * (b₆ + 2 * (b₇ + 2 * value))))))) =
      b₀ + 2 * (b₁ + 2 * (b₂ + 2 * (b₃ + 2 * (b₄ + 2 * (b₅ + 2 * (b₆ + 2 * b₇)))))) +
        256 * value := by
  omega

theorem run_number_byte (count : Nat) (byte : UInt8) {bits rest : List Bool} {value : Nat}
    (ran : (BitReader.number count).run bits = some (value, rest)) :
    (BitReader.number (count + 8)).run (bitsOfByte byte ++ bits) =
      some (byte.toNat + 256 * value, rest) := by
  let bit (place : Nat) := byte.toNat.testBit place
  have spread : bitsOfByte byte ++ bits =
      bit 0 :: bit 1 :: bit 2 :: bit 3 :: bit 4 :: bit 5 :: bit 6 :: bit 7 :: bits := rfl
  have steps := run_number_succ _ (bit 0) (run_number_succ _ (bit 1) (run_number_succ _ (bit 2)
    (run_number_succ _ (bit 3) (run_number_succ _ (bit 4) (run_number_succ _ (bit 5)
    (run_number_succ _ (bit 6) (run_number_succ _ (bit 7) ran)))))))
  have whole := bits_value byte.toNat byte.toNat_lt
  rw [spread, steps, shift_byte, whole]

theorem run_number_bytes (bytes : List UInt8) (rest : List Bool) :
    (BitReader.number (8 * bytes.length)).run (bitsOf bytes ++ rest) = some (valueOf bytes, rest) := by
  induction bytes with
  | nil => rfl
  | cons byte bytes ih =>
    rw [bitsOf, List.flatMap_cons, ← bitsOf, List.append_assoc]
    exact run_number_byte (8 * bytes.length) byte ih

theorem length_bitsOf (bytes : List UInt8) : (bitsOf bytes).length = 8 * bytes.length := by
  induction bytes with
  | nil => rfl
  | cons byte bytes ih =>
    rw [bitsOf, List.flatMap_cons, ← bitsOf, List.length_append, ih, List.length_cons, bitsOfByte,
      List.length_map, List.length_range]
    omega

theorem bitsOf_append (first second : List UInt8) :
    bitsOf (first ++ second) = bitsOf first ++ bitsOf second := List.flatMap_append

theorem valueOf_littleEndian_two (value : Nat) :
    valueOf (littleEndian 2 value) = value % 0x10000 := by
  simp only [littleEndian, valueOf, Nat.toUInt8, UInt8.toNat_ofNat']
  omega

theorem valueOf_littleEndian_four (value : Nat) :
    valueOf (littleEndian 4 value) = value % 0x100000000 := by
  simp only [littleEndian, valueOf, Nat.toUInt8, UInt8.toNat_ofNat']
  omega

theorem length_littleEndian (width value : Nat) : (littleEndian width value).length = width := by
  induction width generalizing value with
  | zero => rfl
  | succ width ih => rw [littleEndian, List.length_cons, ih]

theorem run_bytesOnto (output : Array UInt8) (bytes : List UInt8) (rest : List Bool) :
    (BitReader.bytesOnto output bytes.length).run (bitsOf bytes ++ rest) =
      some (output ++ bytes.toArray, rest) := by
  induction bytes generalizing output with
  | nil =>
    have same : output ++ [].toArray = output := by simp
    rw [same]
    rfl
  | cons byte bytes ih =>
    have first : (BitReader.number 8).run (bitsOfByte byte ++ (bitsOf bytes ++ rest)) =
        some (byte.toNat, bitsOf bytes ++ rest) := run_number_byte 0 byte rfl
    have grown : output.push byte ++ bytes.toArray = output ++ (byte :: bytes).toArray := by simp
    rw [bitsOf, List.flatMap_cons, ← bitsOf, List.append_assoc, List.length_cons,
      BitReader.bytesOnto, BitReader.run_bind first, Nat.toUInt8, UInt8.ofNat_toNat, ih, grown]

theorem run_align {padding : List Bool} (bytes : List UInt8) (short : padding.length < 8) :
    BitReader.align.run (padding ++ bitsOf bytes) = some ((), bitsOf bytes) := by
  have dropped : (padding ++ bitsOf bytes).length % 8 = padding.length := by
    rw [List.length_append, length_bitsOf]
    omega
  change some ((), (padding ++ bitsOf bytes).drop ((padding ++ bitsOf bytes).length % 8)) = _
  rw [dropped, List.drop_left]

/-- One stored block: a byte that says whether it is the last, the length of the
block twice, and its bytes. -/
def stored (last : UInt8) (content : List UInt8) : List UInt8 :=
  last :: littleEndian 2 content.length ++ littleEndian 2 (0xffff - content.length) ++ content

theorem run_storedBlock (output : Array UInt8) {content : List UInt8} (rest : List UInt8)
    (fits : content.length ≤ blockLimit) {padding : List Bool} (short : padding.length < 8) :
    (storedBlock output).run (padding ++ bitsOf (littleEndian 2 content.length ++
      littleEndian 2 (0xffff - content.length) ++ content ++ rest)) =
      some (output ++ content.toArray, bitsOf rest) := by
  have length (more : List Bool) :
      (BitReader.number 16).run (bitsOf (littleEndian 2 content.length) ++ more) =
        some (content.length, more) := by
    have read := run_number_bytes (littleEndian 2 content.length) more
    rwa [length_littleEndian, valueOf_littleEndian_two, Nat.mod_eq_of_lt] at read
    exact Nat.lt_succ_of_le fits
  have complement (more : List Bool) :
      (BitReader.number 16).run (bitsOf (littleEndian 2 (0xffff - content.length)) ++ more) =
        some (0xffff - content.length, more) := by
    have read := run_number_bytes (littleEndian 2 (0xffff - content.length)) more
    rwa [length_littleEndian, valueOf_littleEndian_two, Nat.mod_eq_of_lt] at read
    omega
  have agree : (content.length + (0xffff - content.length) == 0xffff) = true := by
    rw [beq_iff_eq]
    exact Nat.add_sub_cancel' fits
  have allowed (more : List Bool) : (BitReader.require true).run more = some ((), more) := rfl
  rw [storedBlock, BitReader.run_bind (run_align _ short)]
  simp only [bitsOf_append, List.append_assoc]
  rw [BitReader.run_bind (length _), BitReader.run_bind (complement _), agree,
    BitReader.run_bind (allowed _), run_bytesOnto]

theorem storedBlocks_eq (bytes : List UInt8) :
    storedBlocks bytes =
      if bytes.length ≤ blockLimit then stored 1 bytes
      else stored 0 (bytes.take blockLimit) ++ storedBlocks (bytes.drop blockLimit) := by
  rw [storedBlocks]
  rfl

theorem run_block (output : Array UInt8) {content : List UInt8} (rest : List UInt8)
    (fits : content.length ≤ blockLimit) :
    (block output).run (List.replicate 7 false ++ bitsOf (littleEndian 2 content.length ++
      littleEndian 2 (0xffff - content.length) ++ content ++ rest)) =
      some (output ++ content.toArray, bitsOf rest) := by
  have kind (more : List Bool) : (BitReader.number 2).run (List.replicate 7 false ++ more) =
      some (0, List.replicate 5 false ++ more) := rfl
  rw [block, BitReader.run_bind (kind _)]
  exact run_storedBlock output rest fits (by decide)

theorem bitsOf_stored (last : Bool) (content rest : List UInt8) :
    bitsOf (stored (if last then 1 else 0) content ++ rest) =
      last :: (List.replicate 7 false ++ bitsOf (littleEndian 2 content.length ++
        littleEndian 2 (0xffff - content.length) ++ content ++ rest)) := by
  cases last <;> rfl

theorem inflate_cons {output grown : Array UInt8} {bits rest : List Bool} (last : Bool)
    (ran : (block output).run bits = some (grown, rest)) :
    inflate output (last :: bits) = if last then some (grown, rest) else inflate grown rest := by
  rw [inflate]
  split
  next refused => rw [ran] at refused; contradiction
  next other further again =>
    rw [ran] at again
    obtain ⟨rfl, rfl⟩ := Prod.mk.inj (Option.some.inj again)
    rfl

/-- Blocks are read up to the last one and no further. -/
theorem inflate_storedBlocks (output : Array UInt8) (bytes rest : List UInt8) :
    inflate output (bitsOf (storedBlocks bytes ++ rest)) =
      some (output ++ bytes.toArray, bitsOf rest) := by
  induction size : bytes.length using Nat.strongRecOn generalizing output bytes with
  | ind length ih =>
    subst size
    rw [storedBlocks_eq]
    by_cases fits : bytes.length ≤ blockLimit
    · have spread := bitsOf_stored true bytes rest
      rw [if_pos rfl] at spread
      rw [if_pos fits, spread, inflate_cons true (run_block output rest fits), if_pos rfl]
    · have spread := bitsOf_stored false (bytes.take blockLimit)
        (storedBlocks (bytes.drop blockLimit) ++ rest)
      rw [if_neg Bool.false_ne_true] at spread
      have taken : (bytes.take blockLimit).length ≤ blockLimit := by
        rw [List.length_take]
        exact Nat.min_le_left _ _
      have shorter : (bytes.drop blockLimit).length < bytes.length := by
        rw [List.length_drop]
        unfold blockLimit at *
        omega
      have joined : output ++ (bytes.take blockLimit).toArray ++ (bytes.drop blockLimit).toArray =
          output ++ bytes.toArray := by
        simp
      rw [if_neg fits, List.append_assoc, spread, inflate_cons false (run_block output _ taken),
        if_neg Bool.false_ne_true, ih _ shorter _ _ rfl, joined]

theorem afterHeader?_plainHeader (rest : List UInt8) :
    afterHeader? (plainHeader ++ rest) = some rest := rfl

theorem run_trailer (check length : Nat) :
    trailer.run (bitsOf (littleEndian 4 check ++ littleEndian 4 length)) =
      some ((check % 0x100000000, length % 0x100000000), []) := by
  have word (value : Nat) (more : List Bool) :
      (BitReader.number 32).run (bitsOf (littleEndian 4 value) ++ more) =
        some (value % 0x100000000, more) := by
    have read := run_number_bytes (littleEndian 4 value) more
    rwa [length_littleEndian, valueOf_littleEndian_four] at read
  have last := word length []
  rw [List.append_nil] at last
  have aligned (bytes : List UInt8) : BitReader.align.run (bitsOf bytes) = some ((), bitsOf bytes) :=
    run_align bytes (show [].length < 8 by decide)
  rw [trailer, BitReader.run_bind (aligned _), bitsOf_append, BitReader.run_bind (word _ _),
    BitReader.run_bind last, BitReader.run_pure]

/-- Decompression undoes compression. -/
theorem decompress?_compress (bytes : List UInt8) : decompress? (compress bytes) = some bytes := by
  have inflated := inflate_storedBlocks #[] bytes
    (littleEndian 4 (checksum bytes).toNat ++ littleEndian 4 bytes.length)
  have check : (checksum bytes).toNat % 0x100000000 = (checksum bytes).toNat :=
    Nat.mod_eq_of_lt (checksum bytes).toNat_lt
  rw [decompress?, compress, List.append_assoc, List.append_assoc, afterHeader?_plainHeader]
  simp [inflated, run_trailer, check]

end VarDoc.Gzip
