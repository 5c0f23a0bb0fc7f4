/-! The cyclic redundancy check of 32 bits, least significant bit first. -/

set_option autoImplicit false

namespace VarDoc.Gzip

def polynomial : UInt32 := 0xedb88320

def checksumBit (register : UInt32) : UInt32 :=
  if register &&& 1 = 1 then (register >>> 1) ^^^ polynomial else register >>> 1

def checksumByte (register : UInt32) (byte : UInt8) : UInt32 :=
  (List.range 8).foldl (fun current _ => checksumBit current) (register ^^^ byte.toUInt32)

def checksum (bytes : List UInt8) : UInt32 :=
  (bytes.foldl checksumByte 0xffffffff) ^^^ 0xffffffff

end VarDoc.Gzip
