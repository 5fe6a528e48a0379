import TrieStorage.Store.Partitioned

/-!
# Settings

What can be set, the defaults, and what a setting has to satisfy.
-/

namespace TrieStorage

/-- Where the generations of the old layout are kept. -/
structure SnapshotDb where
  /-- The directory that holds the generations. -/
  path : Option String := none
  /-- How long that backend collects writes, in seconds. -/
  batchDelaySeconds : Nat := 0
  deriving DecidableEq, Repr

/-- The settings of a manager. -/
structure Config where
  /-- How many requests each queue holds. -/
  snapshotsBufferLen : Nat := 10
  /-- How many walks may run at the same time. -/
  maxConcurrentSnapshots : Nat := 2
  /-- How many generations are kept open. -/
  maxSnapshots : Nat := 2
  /-- Whether the directory of a dropped generation stays on disk. -/
  keepSnapshots : Bool := false
  /-- The epoch whose confirmation retires the old layout. -/
  disableOldStorageEpoch : Epoch := 4294967295
  /-- How often a waiting request asks for a slot, in milliseconds. -/
  throttlePollIntervalMs : Nat := 100
  /-- The budget of pending hashes. -/
  checkpointHashesMaxSize : Nat := 8388608
  snapshotDb : SnapshotDb := {}
  deriving DecidableEq, Repr

namespace Config

/-- What is wrong with the settings, the first complaint in a fixed order. -/
def complaint? (c : Config) : Option String :=
  if c.snapshotsBufferLen = 0 then some "snapshots_buffer_len must be at least 1"
  else if c.maxConcurrentSnapshots = 0 then some "max_concurrent_snapshots must be at least 1"
  else if c.maxSnapshots = 0 then some "max_snapshots must be at least 1"
  else none

end Config

end TrieStorage
