import TrieStorage.Manager.Basic

/-!
# Building a manager

A manager is put together from parts, any of which may be missing.  The first
missing part is reported, then unusable settings.  The manager hears the
current epoch of its hub before it looks for generations, so a manager that
starts after the old layout has been retired never opens one.
-/

namespace TrieStorage

/-- What a manager is put together from. -/
structure Parts where
  db : Option Store := none
  main : Option Store := none
  checkpoints : Option Store := none
  /-- How the stored form of a node is read. -/
  marshaller : Option (Bytes → Except CodecError Node) := none
  /-- How a stored form is addressed. -/
  hasher : Option (Bytes → NodeHash) := none
  tracker : Option Tracker := none
  hub : Option (EpochHub Unit) := none
  /-- How generations are opened. -/
  opener : Option Opener := none
  /-- A throttle to be used in place of one with the configured slots. -/
  throttle : Option Throttle := none
  config : Config := {}

namespace Throttle

/-- A throttle with a number of slots, which has to be positive. -/
def make (max : Nat) : Except ManagerError Throttle :=
  if max = 0 then .error (.invalidConfig "throttler needs at least one slot") else .ok { max }

end Throttle

namespace Manager

/-- A part that has to be there. -/
def demand {α : Type} (part : Dependency) : Option α → Except ManagerError α
  | some value => .ok value
  | none => .error (.missingDependency part)

/-- The manager made of parts, before it has heard of any epoch or looked for
generations. -/
def compose (parts : Parts) (disk : Disk) (refusals : Refusals) : Except ManagerError Manager := do
  let db ← demand .legacyDb parts.db
  let main ← demand .mainStorer parts.main
  let checkpoints ← demand .checkpointsStorer parts.checkpoints
  let decode ← demand .marshaller parts.marshaller
  let address ← demand .hasher parts.hasher
  let tracker ← demand .checkpointHashesHolder parts.tracker
  let hub ← demand .epochNotifier parts.hub
  parts.config.validate
  let throttle ←
    match parts.throttle with
    | some throttle => .ok throttle
    | none => Throttle.make parts.config.maxConcurrentSnapshots
  let storage : Storage :=
    { disk, refusals
      main := { name := .main, store := main }
      db := { name := .db, store := db }
      checkpoints := { name := .checkpoints, store := checkpoints } }
  return {
    vault := { config := parts.config, scheme := ⟨address, decode⟩, opener := parts.opener,
               storage, tracker }
    throttle, hub }

/-- Registers with the hub and hears its current epoch. -/
def joinHub (m : Manager) : Manager :=
  let (hub, deliveries) := m.hub.register ()
  { m with hub }.deliverEpochs deliveries

def discover (m : Manager) : Manager := { m with vault := m.vault.discover }

/-- Puts a manager together on a disk. -/
def assemble (parts : Parts) (disk : Disk) (refusals : Refusals) : Except ManagerError Manager :=
  (compose parts disk refusals).map fun m => m.joinHub.discover

end Manager

end TrieStorage
