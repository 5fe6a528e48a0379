import TrieStorage.Bytes.Basic

/-!
# Little-endian numbers

A number is written in a fixed count of bytes, least significant first; what
does not fit is dropped.  `decode_encode` says that a number below the bound
reads back.
-/

namespace TrieStorage

namespace LittleEndian

/-- The lowest `width` bytes of a number, least significant first. -/
def encode : Nat → Nat → Bytes
  | 0, _ => []
  | width + 1, n => UInt8.ofNat n :: encode width (n / 256)

/-- The least number that does not fit into so many bytes. -/
def bound : Nat → Nat
  | 0 => 1
  | width + 1 => 256 * bound width

/-- The number that a string of bytes stands for. -/
def decode : Bytes → Nat
  | [] => 0
  | byte :: rest => byte.toNat + 256 * decode rest

@[simp] theorem length_encode (width n : Nat) : (encode width n).length = width := by
  induction width generalizing n with
  | zero => rfl
  | succ width ih => simp [encode, ih]

theorem decode_encode_mod (width n : Nat) : decode (encode width n) = n % bound width := by
  induction width generalizing n with
  | zero => simp [encode, decode, bound, Nat.mod_one]
  | succ width ih =>
    have low : (UInt8.ofNat n).toNat = n % 256 := by simp
    rw [encode, decode, low, ih, bound, Nat.mod_mul]

theorem decode_encode {width n : Nat} (h : n < bound width) :
    decode (encode width n) = n := by
  rw [decode_encode_mod, Nat.mod_eq_of_lt h]

end LittleEndian

end TrieStorage
