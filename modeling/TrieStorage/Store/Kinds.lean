import TrieStorage.Store.Logged
import TrieStorage.Store.Partitioned

/-!
# Stores of every kind

The three kinds of store behind one set of operations.  Only the store on disk
touches the disk; the others hand it back as it was.
-/

namespace TrieStorage

/-- A store of some kind. -/
inductive Store where
  | memory (s : MemoryStore)
  | logged (s : LoggedStore)
  | partitioned (s : PartitionedStore)

namespace Store

def get (s : Store) (key : Bytes) : Except StoreError (Option Bytes) :=
  match s with
  | .memory s => s.get key
  | .logged s => s.get key
  | .partitioned s => s.get key

def put (s : Store) (disk : Disk) (key value : Bytes) :
    Except StoreError Unit × Store × Disk :=
  match s with
  | .memory s =>
    let (answer, s) := s.put key value
    (answer, .memory s, disk)
  | .logged s =>
    let (answer, s, disk) := s.put disk key value
    (answer, .logged s, disk)
  | .partitioned s =>
    let (answer, s) := s.put key value
    (answer, .partitioned s, disk)

def remove (s : Store) (disk : Disk) (key : Bytes) : Except StoreError Unit × Store × Disk :=
  match s with
  | .memory s =>
    let (answer, s) := s.remove key
    (answer, .memory s, disk)
  | .logged s =>
    let (answer, s, disk) := s.remove disk key
    (answer, .logged s, disk)
  | .partitioned s =>
    let (answer, s) := s.remove key
    (answer, .partitioned s, disk)

def close (s : Store) : Except StoreError Unit × Store :=
  match s with
  | .memory s =>
    let (answer, s) := s.close
    (answer, .memory s)
  | .logged s =>
    let (answer, s) := s.close
    (answer, .logged s)
  | .partitioned s =>
    let (answer, s) := s.close
    (answer, .partitioned s)

/-- Sends later writes to the partition of an epoch; without partitions nothing
happens. -/
def selectEpoch (s : Store) (epoch : Epoch) : Store :=
  match s with
  | .partitioned s => .partitioned (s.select epoch)
  | s => s

/-- Puts entries one after the other, up to the first failure. -/
def putAll (s : Store) (disk : Disk) : List (Bytes × Bytes) → Except StoreError Unit × Store × Disk
  | [] => (.ok (), s, disk)
  | (key, value) :: rest =>
    match s.put disk key value with
    | (.ok (), s, disk) => s.putAll disk rest
    | (.error e, s, disk) => (.error e, s, disk)

end Store

/-- How the store of a generation is opened. -/
inductive Opener where
  /-- An empty store in memory; the directory is made all the same. -/
  | memory
  /-- The store kept in the directory. -/
  | logged
  deriving DecidableEq, Repr

namespace Opener

/-- Opens the store of a directory. -/
def openAt (opener : Opener) (disk : Disk) (dir : String) : Except StoreError Store × Disk :=
  match opener with
  | .memory =>
    match disk.createDirectories dir with
    | (false, disk) => (.error .io, disk)
    | (true, disk) => (.ok (.memory {}), disk)
  | .logged =>
    match LoggedStore.openAt disk dir with
    | (.error e, disk) => (.error e, disk)
    | (.ok s, disk) => (.ok (.logged s), disk)

end Opener

end TrieStorage
