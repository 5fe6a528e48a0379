import Mathlib.Data.Nat.Bitwise
import TrieStorage.Digest.Crc32

/-!
# What the checksum tells apart

Shifting a bit out of the register can be undone: the polynomial has its highest bit set, so
that bit of the new register says which bit went out.  Hence the register after some bytes
determines the register before them, and no two byte strings that differ in one byte have the
same checksum.
-/

namespace TrieStorage

namespace Crc32

theorem low_iff (register : UInt32) : register &&& 1 = 1 ↔ register.toNat % 2 = 1 := by
  rw [← UInt32.toNat_inj, UInt32.toNat_and]
  simp [Nat.and_one_is_mod]

/-- The lowest bit and the others make up the register. -/
theorem eq_of_halves {a b : UInt32} (low : a &&& 1 = 1 ↔ b &&& 1 = 1) (high : a >>> 1 = b >>> 1) :
    a = b := by
  have high := congrArg UInt32.toNat high
  rw [low_iff, low_iff] at low
  simp only [UInt32.toNat_shiftRight, UInt32.toNat_one, Nat.one_mod, Nat.shiftRight_one] at high
  refine UInt32.toNat.inj ?_
  omega

/-- A register from which a set bit went out is none from which an unset bit did. -/
theorem shiftRight_xor_ne (a b : UInt32) : (a >>> 1) ^^^ polynomial ≠ b >>> 1 := by
  intro same
  have poly : polynomial = (a >>> 1) ^^^ (b >>> 1) := by
    rw [← same, ← UInt32.xor_assoc, UInt32.xor_self, UInt32.zero_xor]
  have half (r : UInt32) : (r >>> 1).toNat < 2 ^ 31 := by
    have := r.toNat_lt
    simp only [UInt32.toNat_shiftRight, UInt32.toNat_one, Nat.one_mod, Nat.shiftRight_one]
    omega
  have small : polynomial.toNat < 2 ^ 31 := by
    rw [poly, UInt32.toNat_xor]
    exact Nat.xor_lt_two_pow (half a) (half b)
  exact absurd small (by decide)

theorem shiftBit_inj {a b : UInt32} (same : shiftBit a = shiftBit b) : a = b := by
  unfold shiftBit at same
  by_cases odd : a &&& 1 = 1 <;> by_cases odd' : b &&& 1 = 1
  · rw [if_pos odd, if_pos odd'] at same
    exact eq_of_halves (iff_of_true odd odd') ((UInt32.xor_left_inj _).1 same)
  · rw [if_pos odd, if_neg odd'] at same
    exact absurd same (shiftRight_xor_ne a b)
  · rw [if_neg odd, if_pos odd'] at same
    exact absurd same.symm (shiftRight_xor_ne b a)
  · rw [if_neg odd, if_neg odd'] at same
    exact eq_of_halves (iff_of_false odd odd') same

theorem shiftBits_inj {n : Nat} {a b : UInt32} (same : shiftBits n a = shiftBits n b) : a = b := by
  induction n generalizing a b with
  | zero => exact same
  | succ n ih => exact shiftBit_inj (ih same)

/-- The register after a byte determines the register before it. -/
theorem feed_inj {byte : UInt8} {a b : UInt32} (same : feed a byte = feed b byte) : a = b :=
  (UInt32.xor_left_inj _).1 (shiftBits_inj same)

/-- The register after a byte tells the byte. -/
theorem byte_inj {register : UInt32} {x y : UInt8} (same : feed register x = feed register y) :
    x = y := by
  have words : x.toUInt32 = y.toUInt32 := (UInt32.xor_right_inj _).1 (shiftBits_inj same)
  exact UInt8.toUInt32_inj.1 words

theorem foldl_feed_inj {bytes : Bytes} {a b : UInt32}
    (same : bytes.foldl feed a = bytes.foldl feed b) : a = b := by
  induction bytes generalizing a b with
  | nil => exact same
  | cons byte rest ih => exact feed_inj (ih same)

/-- Two byte strings that differ in one byte differ in their checksums. -/
theorem checksum_ne (front back : Bytes) {x y : UInt8} (ne : x ≠ y) :
    checksum (front ++ x :: back) ≠ checksum (front ++ y :: back) := by
  intro same
  have registers := (UInt32.xor_left_inj _).1 same
  simp only [List.foldl_append, List.foldl_cons] at registers
  exact ne (byte_inj (foldl_feed_inj registers))

theorem checksum_set_ne {bytes : Bytes} {place : Nat} (inside : place < bytes.length)
    {byte : UInt8} (other : bytes[place] ≠ byte) :
    checksum (bytes.set place byte) ≠ checksum bytes := by
  have whole : bytes.take place ++ bytes[place] :: bytes.drop (place + 1) = bytes := by
    rw [List.getElem_cons_drop inside, List.take_append_drop]
  have differ := checksum_ne (bytes.take place) (bytes.drop (place + 1)) other.symm
  rw [whole] at differ
  rw [List.set_eq_take_append_cons_drop, if_pos inside]
  exact differ

end Crc32

end TrieStorage
