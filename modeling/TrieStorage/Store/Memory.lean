import TrieStorage.Store.Error
import TrieStorage.Store.Table

/-!
# The store in memory

A table behind a door that closes once.  Successful writes and all attempts to
close are counted.  After the door is shut every call answers `closed`, and the
table stays as it was.
-/

namespace TrieStorage

/-- A store that lives in memory. -/
structure MemoryStore where
  table : Table := {}
  closed : Bool := false
  /-- Writes that succeeded. -/
  writes : Nat := 0
  /-- Attempts to close, whether they succeeded or not. -/
  closeCalls : Nat := 0
  deriving DecidableEq, Repr

namespace MemoryStore

def get (s : MemoryStore) (key : Bytes) : Except StoreError (Option Bytes) :=
  if s.closed then .error .closed else .ok (s.table.get? key)

def put (s : MemoryStore) (key value : Bytes) : Except StoreError Unit × MemoryStore :=
  if s.closed then (.error .closed, s)
  else (.ok (), { s with table := s.table.insert key value, writes := s.writes + 1 })

/-- Drops a key; a key without a value is dropped as well as any other. -/
def remove (s : MemoryStore) (key : Bytes) : Except StoreError Unit × MemoryStore :=
  if s.closed then (.error .closed, s)
  else (.ok (), { s with table := s.table.erase key })

/-- Closes the store; the second attempt fails. -/
def close (s : MemoryStore) : Except StoreError Unit × MemoryStore :=
  (if s.closed then .error .closed else .ok (),
    { s with closed := true, closeCalls := s.closeCalls + 1 })

def describe (s : MemoryStore) : String :=
  "MemoryStore \x7b entry_count: " ++ toString s.table.size ++
    ", closed: " ++ toString s.closed ++ " \x7d"

end MemoryStore

end TrieStorage
