import TrieStorage.Bytes.Layout
import TrieStorage.Store.Table

/-!
# Log records

One change of a table.  Tag 0 puts a value under a key, tag 1 drops a key.
-/

namespace TrieStorage

/-- A change of a table, as it is written to a log. -/
inductive LogRecord where
  | put (key value : Bytes)
  | remove (key : Bytes)
  deriving DecidableEq, Repr

namespace LogRecord

open Layout

def apply (table : Table) : LogRecord → Table
  | .put key value => table.insert key value
  | .remove key => table.erase key

def encode : LogRecord → Bytes
  | .put key value => writeTag 0 ++ writeBytes key ++ writeBytes value
  | .remove key => writeTag 1 ++ writeBytes key

def readPut : Reader LogRecord := fun bytes => do
  let (key, rest) ← readBytes bytes
  let (value, rest) ← readBytes rest
  return (.put key value, rest)

def readRemove : Reader LogRecord := fun bytes => do
  let (key, rest) ← readBytes bytes
  return (.remove key, rest)

/-- A record at the front of a byte string. -/
def read : Reader LogRecord := fun bytes => do
  let (tag, rest) ← readNumber 4 bytes
  match tag with
  | 0 => readPut rest
  | 1 => readRemove rest
  | _ => .error (.unknownTag tag 2)

/-- Reads the stored form of a record; bytes after it are ignored. -/
def decode (bytes : Bytes) : Except LayoutError LogRecord :=
  match read bytes with
  | .ok (record, _) => .ok record
  | .error e => .error e

end LogRecord

end TrieStorage
