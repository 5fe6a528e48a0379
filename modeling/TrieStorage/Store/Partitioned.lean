import TrieStorage.Store.Memory

/-!
# The store split by epoch

One partition in memory per epoch, ascending.  Writes go to the partition of
the selected epoch, which is made at the first write.  Reads ask the partitions
from the newest epoch to the oldest and stop at the first value or failure.
Removal goes through all partitions, oldest first, and stops at a failure.
Closing attempts every partition; the last failure is reported.
-/

namespace TrieStorage

/-- The number of an epoch, one of 32 bits; epochs are only compared, so the bound does not show. -/
abbrev Epoch := Nat

/-- A store with one partition per epoch, all of them in memory. -/
structure PartitionedStore where
  /-- Partitions, ascending by epoch. -/
  partitions : List (Epoch × MemoryStore) := []
  /-- The epoch whose partition takes the writes. -/
  selected : Epoch := 0
  /-- Epochs for which no partition can be made, and why. -/
  refuses : Epoch → Option StoreError := fun _ => none

namespace PartitionedStore

/-- Epochs that have a partition, ascending. -/
def epochs (s : PartitionedStore) : List Epoch := s.partitions.map Prod.fst

def partition? (s : PartitionedStore) (epoch : Epoch) : Option MemoryStore :=
  (s.partitions.find? fun p => p.1 = epoch).map Prod.snd

/-- Sends later writes to the partition of an epoch. -/
def select (s : PartitionedStore) (epoch : Epoch) : PartitionedStore :=
  { s with selected := epoch }

/-- Puts the partition of an epoch into its place. -/
def place (epoch : Epoch) (partition : MemoryStore) :
    List (Epoch × MemoryStore) → List (Epoch × MemoryStore)
  | [] => [(epoch, partition)]
  | (e, p) :: rest =>
    if epoch < e then (epoch, partition) :: (e, p) :: rest
    else if epoch = e then (epoch, partition) :: rest
    else (e, p) :: place epoch partition rest

/-- The store after a change to the partition of an epoch. -/
def setPartition (s : PartitionedStore) (epoch : Epoch) (partition : MemoryStore) :
    PartitionedStore :=
  { s with partitions := place epoch partition s.partitions }

/-- The partition that takes the next write, made if it does not exist. -/
def partitionForPut (s : PartitionedStore) : Except StoreError MemoryStore :=
  match s.partition? s.selected with
  | some p => .ok p
  | none =>
    match s.refuses s.selected with
    | some e => .error e
    | none => .ok {}

/-- The first value or failure in a list of partitions. -/
def search (key : Bytes) : List (Epoch × MemoryStore) → Except StoreError (Option Bytes)
  | [] => .ok none
  | (_, p) :: rest =>
    match p.get key with
    | .error e => .error e
    | .ok (some value) => .ok (some value)
    | .ok none => search key rest

/-- The value under a key, from the newest partition that has one. -/
def get (s : PartitionedStore) (key : Bytes) : Except StoreError (Option Bytes) :=
  search key s.partitions.reverse

/-- Puts a value under a key in the selected partition. -/
def put (s : PartitionedStore) (key value : Bytes) : Except StoreError Unit × PartitionedStore :=
  match s.partitionForPut with
  | .error e => (.error e, s)
  | .ok p =>
    let (answer, p) := p.put key value
    (answer, s.setPartition s.selected p)

/-- Drops a key from partition after partition, up to the first failure. -/
def removeFrom (key : Bytes) :
    List (Epoch × MemoryStore) → Except StoreError Unit × List (Epoch × MemoryStore)
  | [] => (.ok (), [])
  | (e, p) :: rest =>
    match p.remove key with
    | (.error err, p) => (.error err, (e, p) :: rest)
    | (.ok (), p) =>
      let (answer, rest) := removeFrom key rest
      (answer, (e, p) :: rest)

/-- Drops a key from every partition. -/
def remove (s : PartitionedStore) (key : Bytes) : Except StoreError Unit × PartitionedStore :=
  let (answer, partitions) := removeFrom key s.partitions
  (answer, { s with partitions })

/-- Closes every partition in turn; `answer` is that of the partitions before. -/
def closeAll (answer : Except StoreError Unit) :
    List (Epoch × MemoryStore) → Except StoreError Unit × List (Epoch × MemoryStore)
  | [] => (answer, [])
  | (e, p) :: rest =>
    let (own, p) := p.close
    let answer := match own with
      | .ok () => answer
      | .error err => .error err
    let (answer, rest) := closeAll answer rest
    (answer, (e, p) :: rest)

/-- Closes every partition. -/
def close (s : PartitionedStore) : Except StoreError Unit × PartitionedStore :=
  let (answer, partitions) := closeAll (.ok ()) s.partitions
  (answer, { s with partitions })

end PartitionedStore

end TrieStorage
