import TrieStorage.Bytes.LittleEndian
import TrieStorage.Digest.Crc32

/-!
# Log frames

A frame is a payload behind its length and its checksum, four bytes each.  The
length field holds the length modulo 2^32.  Splitting takes one frame off the
front of a log; it gives up at a header that is cut off, that announces nothing
or that announces more than there is.
-/

namespace TrieStorage

/-- A payload and the checksum that was written with it. -/
structure Frame where
  sum : Nat
  payload : Bytes
  deriving DecidableEq, Repr

namespace Frame

/-- The bytes of the length and the checksum together. -/
def headerSize : Nat := 8

/-- The frame of a payload, as bytes. -/
def write (payload : Bytes) : Bytes :=
  LittleEndian.encode 4 payload.length ++
    LittleEndian.encode 4 (Crc32.checksum payload).toNat ++ payload

/-- Whether the checksum is that of the payload. -/
def intact (f : Frame) : Bool := (Crc32.checksum f.payload).toNat = f.sum

/-- How many bytes the frame takes in a log. -/
def size (f : Frame) : Nat := headerSize + f.payload.length

/-- Takes a frame off the front of a log. -/
def split? (log : Bytes) : Option (Frame × Bytes) :=
  if log.length < headerSize then none
  else
    let length := LittleEndian.decode (log.take 4)
    let sum := LittleEndian.decode ((log.drop 4).take 4)
    let body := log.drop headerSize
    if length = 0 ∨ body.length < length then none
    else some (⟨sum, body.take length⟩, body.drop length)

/-- Splitting takes exactly the size of the frame. -/
theorem length_of_split? {log : Bytes} {f : Frame} {rest : Bytes}
    (h : split? log = some (f, rest)) : log.length = f.size + rest.length := by
  unfold split? at h
  by_cases short : log.length < headerSize
  · simp [short] at h
  · rw [if_neg short] at h
    by_cases bad : LittleEndian.decode (log.take 4) = 0 ∨
        (log.drop headerSize).length < LittleEndian.decode (log.take 4)
    · simp only [bad, if_true, reduceCtorEq] at h
    · simp only [bad, if_false, Option.some.injEq, Prod.mk.injEq] at h
      obtain ⟨rfl, rfl⟩ := h
      simp only [size, headerSize, List.length_drop, List.length_take] at *
      omega

theorem length_lt_of_split? {log : Bytes} {f : Frame} {rest : Bytes}
    (h : split? log = some (f, rest)) : rest.length < log.length := by
  have := length_of_split? h
  simp only [size, headerSize] at this
  omega

end Frame

end TrieStorage
