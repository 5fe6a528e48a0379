import Mathlib.Algebra.Group.Nat.Defs
import TrieStorage.Bytes.Layout

/-!
# Reading back what was written

In the binary layout a reader accepts exactly what the writer of the same kind
of value produces, followed by anything: reading undoes writing, and whatever is
read was written in one way only.
-/

namespace TrieStorage

section

variable {ε α β : Type} {first : Except ε α} {next : α → Except ε β}

/-- A chain of steps that succeeds succeeds in each of them. -/
theorem bind_eq_ok {b : β} (h : first >>= next = .ok b) : ∃ a, first = .ok a ∧ next a = .ok b := by
  cases first with
  | error e => cases h
  | ok a => exact ⟨a, rfl, h⟩

/-- It fails in the first step, or in those after it. -/
theorem bind_eq_error {e : ε} (h : first >>= next = .error e) :
    first = .error e ∨ ∃ a, first = .ok a ∧ next a = .error e := by
  cases first with
  | error e' =>
    cases h
    exact .inl rfl
  | ok a => exact .inr ⟨a, rfl, h⟩

end

namespace LittleEndian

/-- Bytes are the digits of the number that they stand for. -/
theorem encode_decode (bytes : Bytes) : encode bytes.length (decode bytes) = bytes := by
  induction bytes with
  | nil => rfl
  | cons byte rest ih =>
    have low : UInt8.ofNat (byte.toNat + 256 * decode rest) = byte := by
      refine UInt8.toNat.inj ?_
      have := byte.toNat_lt
      simp only [UInt8.toNat_ofNat']
      omega
    have high : (byte.toNat + 256 * decode rest) / 256 = decode rest := by
      have := byte.toNat_lt
      omega
    rw [List.length_cons, decode, encode, low, high, ih]

theorem decode_lt (bytes : Bytes) : decode bytes < bound bytes.length := by
  induction bytes with
  | nil => exact Nat.one_pos
  | cons byte rest ih =>
    have := byte.toNat_lt
    rw [List.length_cons, decode, bound]
    omega

theorem decode_inj {a b : Bytes} (length : a.length = b.length) (same : decode a = decode b) :
    a = b := by
  rw [← encode_decode a, length, same, encode_decode]

end LittleEndian

namespace Layout

theorem readExactly_append (bytes rest : Bytes) :
    readExactly bytes.length (bytes ++ rest) = .ok (bytes, rest) := by
  simp [readExactly]

theorem eq_of_readExactly {count : Nat} {bytes front rest : Bytes}
    (h : readExactly count bytes = .ok (front, rest)) :
    bytes = front ++ rest ∧ front.length = count := by
  unfold readExactly at h
  split at h
  · next enough =>
    simp only [Except.ok.injEq, Prod.mk.injEq] at h
    obtain ⟨rfl, rfl⟩ := h
    exact ⟨(List.take_append_drop count bytes).symm, List.length_take_of_le enough⟩
  · cases h

theorem readNumber_of_le {width : Nat} {bytes : Bytes} (enough : width ≤ bytes.length) :
    readNumber width bytes =
      .ok (LittleEndian.decode (bytes.take width), bytes.drop width) := by
  simp only [readNumber, readExactly, if_pos enough]

theorem readNumber_encode {width n : Nat} (small : n < LittleEndian.bound width) (rest : Bytes) :
    readNumber width (LittleEndian.encode width n ++ rest) = .ok (n, rest) := by
  have front := readExactly_append (LittleEndian.encode width n) rest
  rw [LittleEndian.length_encode] at front
  simp only [readNumber, front, LittleEndian.decode_encode small]

/-- A number is read off the bytes in front. -/
theorem exists_of_readNumber {width n : Nat} {bytes rest : Bytes}
    (h : readNumber width bytes = .ok (n, rest)) :
    ∃ front, readExactly width bytes = .ok (front, rest) ∧ n = LittleEndian.decode front := by
  unfold readNumber at h
  split at h
  · next front rest' split =>
    cases h
    exact ⟨front, split, rfl⟩
  · cases h

theorem eq_of_readNumber {width n : Nat} {bytes rest : Bytes}
    (h : readNumber width bytes = .ok (n, rest)) :
    bytes = LittleEndian.encode width n ++ rest := by
  obtain ⟨front, split, rfl⟩ := exists_of_readNumber h
  obtain ⟨same, length⟩ := eq_of_readExactly split
  rw [← length, LittleEndian.encode_decode, same]

theorem lt_of_readNumber {width n : Nat} {bytes rest : Bytes}
    (h : readNumber width bytes = .ok (n, rest)) : n < LittleEndian.bound width := by
  obtain ⟨front, split, rfl⟩ := exists_of_readNumber h
  rw [← (eq_of_readExactly split).2]
  exact LittleEndian.decode_lt front

theorem readTag_writeTag {tag : Nat} (small : tag < 2 ^ 32) (rest : Bytes) :
    readNumber 4 (writeTag tag ++ rest) = .ok (tag, rest) := readNumber_encode small rest

theorem readBytes_writeBytes {bytes : Bytes} (small : bytes.length < 2 ^ 64) (rest : Bytes) :
    readBytes (writeBytes bytes ++ rest) = .ok (bytes, rest) := by
  have count : readNumber 8 (LittleEndian.encode 8 bytes.length ++ (bytes ++ rest)) =
      .ok (bytes.length, bytes ++ rest) := readNumber_encode small _
  simp only [readBytes, writeBytes, List.append_assoc, count, readExactly_append]

/-- A byte string is read off the bytes behind its length. -/
theorem exists_of_readBytes {bytes value rest : Bytes} (h : readBytes bytes = .ok (value, rest)) :
    ∃ rest', readNumber 8 bytes = .ok (value.length, rest') ∧ rest' = value ++ rest := by
  unfold readBytes at h
  split at h
  · next count rest' number =>
    obtain ⟨same, rfl⟩ := eq_of_readExactly h
    exact ⟨rest', number, same⟩
  · cases h

theorem eq_of_readBytes {bytes value rest : Bytes} (h : readBytes bytes = .ok (value, rest)) :
    bytes = writeBytes value ++ rest := by
  obtain ⟨rest', number, rfl⟩ := exists_of_readBytes h
  rw [eq_of_readNumber number, writeBytes, List.append_assoc]

theorem lt_of_readBytes {bytes value rest : Bytes} (h : readBytes bytes = .ok (value, rest)) :
    value.length < 2 ^ 64 := by
  obtain ⟨rest', number, -⟩ := exists_of_readBytes h
  exact lt_of_readNumber number

/-! ## Failing -/

theorem error_of_readExactly {count : Nat} {bytes : Bytes} {e : LayoutError}
    (h : readExactly count bytes = .error e) : e = .unexpectedEnd := by
  unfold readExactly at h
  split at h <;> cases h
  rfl

theorem error_of_readNumber {width : Nat} {bytes : Bytes} {e : LayoutError}
    (h : readNumber width bytes = .error e) : e = .unexpectedEnd ∧ bytes.length < width := by
  unfold readNumber readExactly at h
  split at h
  · cases h
  · next short =>
    split at short <;> cases short
    next few =>
    cases h
    exact ⟨rfl, Nat.not_le.1 few⟩

theorem error_of_readBytes {bytes : Bytes} {e : LayoutError} (h : readBytes bytes = .error e) :
    e = .unexpectedEnd := by
  unfold readBytes at h
  split at h
  · exact error_of_readExactly h
  · next short =>
    cases h
    exact (error_of_readNumber short).1

/-! ## Lengths -/

@[simp] theorem length_writeTag (tag : Nat) : (writeTag tag).length = 4 := by simp [writeTag]

@[simp] theorem length_writeBytes (bytes : Bytes) :
    (writeBytes bytes).length = 8 + bytes.length := by simp [writeBytes]

end Layout

end TrieStorage
