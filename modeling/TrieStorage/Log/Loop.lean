import TrieStorage.Log.Replay

/-!
# The loop over a log file

A log file is replayed in turns.  The loop learns the length of the file before the first of them.
In each turn a reader hands out a header and then a payload, and the loop counts beside it, in 64
bits, how much of the file lies behind.  A sum that does not fit into the count and a reader that
meets the end of the file are told apart from the ends that a log can have.
-/

namespace TrieStorage

namespace Log

/-- What a loop over a file can run into, whatever the file holds. -/
inductive Mishap where
  /-- A count of bytes does not fit into 64 bits. -/
  | overflow
  /-- The reader meets the end of the file within a header. -/
  | headerCutOff
  /-- The reader meets the end of the file within a payload. -/
  | payloadCutOff
  deriving DecidableEq, Repr

/-- How the loop comes to an end. -/
inductive Ending where
  /-- There is no room for another header. -/
  | exhausted
  /-- A header announces nothing, or more than there is. -/
  | torn
  /-- A payload with the right checksum, the bytes after which start at `offset`, is no record. -/
  | corrupt (offset : UInt64) (reason : LayoutError)
  | mishap (what : Mishap)
  deriving DecidableEq, Repr

/-- What a replay answers that has come to a table and ends so.  It gives none where its count does
not fit. -/
def Ending.answer? (table : Table) : Ending → Option (Except StoreError Table)
  | .exhausted => some (.ok table)
  | .torn => some (.ok table)
  | .corrupt offset reason => some (.error (.corruptRecord offset.toNat reason.message))
  | .mishap .headerCutOff => some (.ok table)
  | .mishap .payloadCutOff => some (.error .io)
  | .mishap .overflow => none

/-- What the loop has at its head. -/
structure Head where
  /-- Where the reader stands in the file. -/
  position : Nat
  /-- How many bytes the loop has counted. -/
  offset : UInt64
  table : Table
  deriving DecidableEq, Repr

def Head.start : Head := ⟨0, 0, Table.empty⟩

/-- The sum of two counts. -/
def sum (a b : UInt64) : Except Ending UInt64 :=
  if a.toNat + b.toNat < UInt64.size then .ok (a + b) else .error (.mishap .overflow)

/-- The next bytes of a file, and where the reader stands behind them. -/
def readExact (file : Bytes) (position count : Nat) (cutOff : Mishap) : Except Ending (Bytes × Nat) :=
  if position + count ≤ file.length then
    .ok ((file.drop position).take count, position + count)
  else .error (.mishap cutOff)

/-- Reads the next header if there is room for one: a length and a checksum. -/
def readHeader (file : Bytes) (head : Head) : Except Ending (UInt32 × Nat × Nat) := do
  let behind ← sum head.offset (UInt64.ofNat Frame.headerSize)
  if UInt64.ofNat file.length < behind then throw .exhausted
  else
    let (header, position) ← readExact file head.position Frame.headerSize .headerCutOff
    return (UInt32.ofNat (LittleEndian.decode (header.take 4)),
      LittleEndian.decode ((header.drop 4).take 4), position)

/-- Reads the payload that a header announces, if there is one, and counts the frame. -/
def readPayload (file : Bytes) (offset : UInt64) (length : UInt32) (position : Nat) :
    Except Ending (Bytes × Nat × UInt64) := do
  if length = 0 then throw .torn
  else
    let behind ← sum (← sum offset (UInt64.ofNat Frame.headerSize)) length.toUInt64
    if UInt64.ofNat file.length < behind then throw .torn
    else
      let (payload, position) ← readExact file position length.toNat .payloadCutOff
      let offset ← sum offset (← sum (UInt64.ofNat Frame.headerSize) length.toUInt64)
      return (payload, position, offset)

/-- Enters a frame, behind which `offset` bytes have been counted, into a table. -/
def enter (table : Table) (offset : UInt64) (frame : Frame) : Except Ending Table :=
  if frame.intact then
    match LogRecord.decode frame.payload with
    | .ok record => .ok (record.apply table)
    | .error e => .error (.corrupt offset e)
  else .ok table

/-- One turn of the loop, which leads to the next head or ends it. -/
def turn (file : Bytes) (head : Head) : Except Ending Head := do
  let (length, expected, position) ← readHeader file head
  let (payload, position, offset) ← readPayload file head.offset length position
  let table ← enter head.table offset ⟨expected, payload⟩
  return ⟨position, offset, table⟩

end Log

end TrieStorage
