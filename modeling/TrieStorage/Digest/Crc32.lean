import TrieStorage.Bytes.Basic

/-!
# The CRC-32 checksum

The reflected IEEE polynomial, with the register inverted before and after.
Each byte enters the low end of the register, which is then shifted out bit by
bit.
-/

namespace TrieStorage

namespace Crc32

/-- The polynomial, least significant bit first. -/
def polynomial : UInt32 := 0xEDB88320

def shiftBit (register : UInt32) : UInt32 :=
  if register &&& 1 = 1 then (register >>> 1) ^^^ polynomial else register >>> 1

/-- Shifts a number of bits out of the register. -/
def shiftBits : Nat → UInt32 → UInt32
  | 0, register => register
  | n + 1, register => shiftBits n (shiftBit register)

def feed (register : UInt32) (byte : UInt8) : UInt32 :=
  shiftBits 8 (register ^^^ byte.toUInt32)

def checksum (bytes : Bytes) : UInt32 := bytes.foldl feed 0xFFFFFFFF ^^^ 0xFFFFFFFF

end Crc32

end TrieStorage
