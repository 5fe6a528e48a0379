import Mathlib.Data.List.Induction
import TrieStorage.Log.Record
import TrieStorage.Proofs.Bytes.Layout

/-!
# Log records

A record that fits into a frame reads back from its stored form, and a byte
string reads as a record exactly if the stored form of that record is in front of
it.  A list of records stands for a table in which the last record of a key
counts; `get?_foldl_apply` says so.
-/

namespace TrieStorage

namespace LogRecord

open Layout

/-! ## The stored form -/

/-- Whether the length of the stored form fits into the header of a frame. -/
def Fits (r : LogRecord) : Prop := r.encode.length < 2 ^ 32

instance (r : LogRecord) : Decidable r.Fits := inferInstanceAs (Decidable (_ < _))

theorem fits_concat {records : List LogRecord} {r : LogRecord}
    (fits : ∀ x ∈ records, x.Fits) (last : r.Fits) : ∀ x ∈ records ++ [r], x.Fits := by
  intro x mem
  rcases List.mem_append.1 mem with old | new
  · exact fits x old
  · rw [List.mem_singleton.1 new]
    exact last

theorem length_encode_put (key value : Bytes) :
    (put key value).encode.length = 4 + (8 + key.length) + (8 + value.length) := by
  simp only [encode, List.length_append, length_writeTag, length_writeBytes]

theorem encode_ne_nil (r : LogRecord) : r.encode ≠ [] := by
  intro none
  have length := congrArg List.length none
  cases r <;> simp [encode] at length

/-- A record reads back, whatever follows it. -/
theorem read_encode {r : LogRecord} (fits : r.Fits) (rest : Bytes) :
    read (r.encode ++ rest) = .ok (r, rest) := by
  cases r with
  | put key value =>
    simp only [Fits, encode, List.length_append, length_writeTag, length_writeBytes] at fits
    have keyFits : key.length < 2 ^ 64 := by omega
    have valueFits : value.length < 2 ^ 64 := by omega
    simp [read, encode, readPut, readTag_writeTag, readBytes_writeBytes keyFits,
      readBytes_writeBytes valueFits, bind, Except.bind, pure, Except.pure]
  | remove key =>
    simp only [Fits, encode, List.length_append, length_writeTag, length_writeBytes] at fits
    have keyFits : key.length < 2 ^ 64 := by omega
    simp [read, encode, readRemove, readTag_writeTag, readBytes_writeBytes keyFits, bind,
      Except.bind, pure, Except.pure]

theorem decode_encode {r : LogRecord} (fits : r.Fits) : decode r.encode = .ok r := by
  have whole := read_encode fits []
  rw [List.append_nil] at whole
  simp only [decode, whole]

theorem eq_of_readPut {bytes rest : Bytes} {r : LogRecord} (h : readPut bytes = .ok (r, rest)) :
    writeTag 0 ++ bytes = r.encode ++ rest := by
  unfold readPut at h
  obtain ⟨⟨key, rest₁⟩, first, h⟩ := bind_eq_ok h
  obtain ⟨⟨value, rest₂⟩, second, h⟩ := bind_eq_ok h
  cases h
  rw [eq_of_readBytes first, eq_of_readBytes second]
  simp [encode]

theorem eq_of_readRemove {bytes rest : Bytes} {r : LogRecord}
    (h : readRemove bytes = .ok (r, rest)) : writeTag 1 ++ bytes = r.encode ++ rest := by
  unfold readRemove at h
  obtain ⟨⟨key, rest₁⟩, first, h⟩ := bind_eq_ok h
  cases h
  rw [eq_of_readBytes first]
  simp [encode]

/-- What reads as a record starts with its stored form. -/
theorem eq_of_read {bytes rest : Bytes} {r : LogRecord} (h : read bytes = .ok (r, rest)) :
    bytes = r.encode ++ rest := by
  unfold read at h
  obtain ⟨⟨tag, rest₁⟩, number, h⟩ := bind_eq_ok h
  rw [eq_of_readNumber number]
  dsimp only at h
  split at h
  · exact eq_of_readPut h
  · exact eq_of_readRemove h
  · cases h

theorem prefix_of_decode {bytes : Bytes} {r : LogRecord} (h : decode bytes = .ok r) :
    r.encode <+: bytes := by
  unfold decode at h
  split at h
  · next record rest found =>
    cases h
    exact ⟨rest, (eq_of_read found).symm⟩
  · cases h

/-! ## What a list of records stands for -/

def key : LogRecord → Bytes
  | .put key _ => key
  | .remove key => key

/-- The value that the record leaves under its key. -/
def value? : LogRecord → Option Bytes
  | .put _ value => some value
  | .remove _ => none

/-- The value that the last record of a key leaves under it. -/
def lastValue? (key : Bytes) (records : List LogRecord) : Option Bytes :=
  (records.reverse.find? fun r => r.key = key).bind value?

theorem get?_apply (table : Table) (r : LogRecord) (key : Bytes) :
    (r.apply table).get? key = if r.key = key then r.value? else table.get? key := by
  cases r with
  | put k v => exact Table.get?_insert table k v key
  | remove k => exact Table.get?_erase table k key

/-- Under a key of some record the last one of them counts, under every other
key nothing changes. -/
theorem get?_foldl_apply (records : List LogRecord) (table : Table) (key : Bytes) :
    (records.foldl apply table).get? key =
      if ∃ r ∈ records, r.key = key then lastValue? key records else table.get? key := by
  induction records using List.reverseRecOn with
  | nil => simp
  | append_singleton records r ih =>
    rw [List.foldl_append, List.foldl_cons, List.foldl_nil, get?_apply, ih]
    by_cases own : r.key = key
    · simp [own, lastValue?]
    · simp [own, lastValue?]

/-- From nothing, the table of a list of records has the last value of each key. -/
theorem get?_foldl_empty (records : List LogRecord) (key : Bytes) :
    (records.foldl apply Table.empty).get? key = lastValue? key records := by
  rw [get?_foldl_apply]
  split
  · rfl
  · next unwritten =>
    have missing : records.reverse.find? (fun r => r.key = key) = none := by
      refine List.find?_eq_none.2 fun r mem => ?_
      simpa using fun own => unwritten ⟨r, List.mem_reverse.1 mem, own⟩
    rw [lastValue?, missing]
    rfl

end LogRecord

end TrieStorage
