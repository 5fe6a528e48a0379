import TrieStorage.Generation.Legacy
import TrieStorage.Manager.Error
import TrieStorage.Manager.Request
import TrieStorage.Manager.Tracker

/-!
# The vault

Everything a manager and its walks read and write: the settings, the layers,
the old layout and the pending hashes.  Reading asks the main store, then the
checkpoint store, then the old layout while that is usable; an empty value and
a failure count as a miss.  Writing goes to the main store only.
-/

namespace TrieStorage

/-- The stored state and the settings that govern it. -/
structure Vault where
  config : Config := {}
  scheme : Scheme := Scheme.standard
  /-- How generations are opened; without it there are none. -/
  opener : Option Opener := none
  storage : Storage
  legacy : Legacy := {}
  tracker : Tracker

namespace Vault

/-- The first non-empty value under a key. -/
def lookup (v : Vault) (key : Bytes) : Option Bytes :=
  v.storage.peek .main key <|> v.storage.peek .checkpoints key <|> v.legacy.get v.storage key

def get (v : Vault) (key : Bytes) : Except ManagerError Bytes :=
  match v.lookup key with
  | some value => .ok value
  | none => .error .keyNotFound

/-- The vault after a write into a layer. -/
def putInto (v : Vault) (id : LayerId) (key value : Bytes) : Except StoreError Unit × Vault :=
  let (answer, storage) := v.storage.put id key value
  (answer, { v with storage })

def put (v : Vault) (key value : Bytes) : Except ManagerError Unit × Vault :=
  let (answer, v) := v.putInto .main key value
  (answer.mapError .store, v)

/-- Stops tracking a hash and drops it from the main store. -/
def remove (v : Vault) (hash : NodeHash) : Except ManagerError Unit × Vault :=
  let (answer, storage) := v.storage.remove .main hash.bytes
  (answer.mapError .store, { v with storage, tracker := v.tracker.remove hash })

/-- Sends later writes to the partition of an epoch, if the main store has any. -/
def selectEpoch (v : Vault) (epoch : Epoch) : Vault :=
  { v with storage :=
      { v.storage with main := { v.storage.main with store := v.storage.main.store.selectEpoch epoch } } }

/-- The vault after the old layout has been closed. -/
def closeLegacy (v : Vault) : Except StoreError Unit × Vault :=
  let (answer, legacy, storage) := v.legacy.close v.storage
  (answer, { v with legacy, storage })

/-- Whether an epoch retires the old layout. -/
def retires (v : Vault) (epoch : Epoch) : Bool := v.config.disableOldStorageEpoch ≤ epoch

/-- The vault after an epoch is known to be confirmed. -/
def noteEpoch (v : Vault) (epoch : Epoch) : Vault :=
  if v.retires epoch then { v with legacy := { v.legacy with disabled := true } } else v

/-- Confirms an epoch: the main store is marked as active and, once the old
layout is retired, that is closed.  Failures are passed over, and a closed
manager only takes note. -/
def confirmEpoch (v : Vault) (closed : Bool) (epoch : Epoch) : Vault :=
  let v := v.noteEpoch epoch
  if closed then v
  else
    let v := (v.putInto .main activeKey activeValue).2
    if v.legacy.disabled then v.closeLegacy.2 else v

/-- The answer of two closings in a row: the last failure. -/
def lastFailure (first second : Except StoreError Unit) : Except StoreError Unit :=
  match second with
  | .ok () => first
  | .error e => .error e

/-- Closes one layer; `answer` is that of the closings before. -/
def closeLayer (answer : Except StoreError Unit) (id : LayerId) (v : Vault) :
    Except StoreError Unit × Vault :=
  let (own, storage) := v.storage.close id
  (lastFailure answer own, { v with storage })

/-- Closes everything: the old layout, the main store, the checkpoint store. -/
def close (v : Vault) : Except ManagerError Unit × Vault :=
  let (answer, v) := v.closeLegacy
  let (answer, v) := v.closeLayer answer .main
  let (answer, v) := v.closeLayer answer .checkpoints
  (answer.mapError .closeFailed, v)

/-- Where generations are kept and how they are opened, while the old layout
may grow. -/
def growth? (v : Vault) : Option (String × Opener) :=
  if v.legacy.usable then do
    let root ← v.config.snapshotDb.path
    let opener ← v.opener
    return (root, opener)
  else none

/-- What the settings say about old generations. -/
def retention (v : Vault) : Retention := ⟨v.config.maxSnapshots, v.config.keepSnapshots⟩

def discover (v : Vault) : Vault :=
  match v.growth? with
  | none => v
  | some (root, opener) =>
    let (found, storage) := Discovery.run root opener v.storage
    { v with storage, legacy := v.legacy.adopt found }

/-- Whether a layer carries the mark of an active store. -/
def isActive (v : Vault) (id : LayerId) : Bool :=
  match v.storage.get id activeKey with
  | .ok (some value) => value = activeValue
  | _ => false

/-- Where a snapshot goes: a new generation, or the main store. -/
def snapshotStore (v : Vault) : Except StoreError LayerId × Vault :=
  match v.growth? with
  | none => (.ok .main, v)
  | some (root, opener) =>
    let (answer, legacy, storage) := v.legacy.create root opener v.retention v.storage
    (answer, { v with legacy, storage })

/-- Where a checkpoint goes: the newest generation, or the checkpoint store. -/
def checkpointStore (v : Vault) : Except StoreError LayerId × Vault :=
  match v.growth? with
  | none => (.ok .checkpoints, v)
  | some (root, opener) =>
    let (answer, legacy, storage) := v.legacy.latest root opener v.retention v.storage
    (answer, { v with legacy, storage })

/-- Where a copy goes; nowhere if it is a snapshot and neither the chosen store
nor the main store is active. -/
def target (v : Vault) (kind : RequestKind) : Except StoreError (Option LayerId) × Vault :=
  match kind with
  | .checkpoint =>
    let (answer, v) := v.checkpointStore
    (answer.map some, v)
  | .snapshot =>
    let (answer, v) := v.snapshotStore
    (answer.map fun id => if v.isActive id || v.isActive .main then some id else none, v)

end Vault

end TrieStorage
