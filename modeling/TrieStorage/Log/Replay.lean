import TrieStorage.Log.Frame
import TrieStorage.Log.Record
import TrieStorage.Store.Error

/-!
# Replaying a log

The frames of a log are taken from the front.  A frame with a wrong checksum is
passed over; one whose payload is not a record ends the replay with the offset
of the byte after it; the first place where no frame can be split off ends it
with the table reached so far.
-/

namespace TrieStorage

namespace Log

/-- Continues a replay: `offset` bytes lie behind, which produced `table`. -/
def replayFrom (offset : Nat) (table : Table) (log : Bytes) : Except StoreError Table :=
  match _h : Frame.split? log with
  | none => .ok table
  | some (frame, rest) =>
    let after := offset + frame.size
    if frame.intact then
      match LogRecord.decode frame.payload with
      | .ok record => replayFrom after (record.apply table) rest
      | .error e => .error (.corruptRecord after e.message)
    else replayFrom after table rest
termination_by log.length
decreasing_by all_goals exact Frame.length_lt_of_split? ‹_›

/-- The table that a log stands for. -/
def replay (log : Bytes) : Except StoreError Table := replayFrom 0 Table.empty log

/-- The log of a list of records. -/
def write (records : List LogRecord) : Bytes :=
  records.flatMap fun r => Frame.write r.encode

end Log

end TrieStorage
