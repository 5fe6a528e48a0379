import TrieStorage.Manager.EpochHub
import TrieStorage.Manager.Throttle
import TrieStorage.Manager.Walk

/-!
# The manager

A manager puts requests through four stations.  A submitted request waits for
room in the queue of its kind, holds that room for a moment, queues, is held by
the dispatcher until a slot is free, and is walked.  From its submission to its
end it blocks pruning; requests for the empty trie, and those submitted to a
closed manager, end at once and never block anything.

This module holds the state and what callers do to it; `Manager.Moves` holds
what the manager does on its own.
-/

namespace TrieStorage

/-- What the task that admits requests is about. -/
inductive Dispatcher where
  /-- It waits for a request. -/
  | idle
  /-- It has taken a request and waits for a slot. -/
  | holding (request : Request)
  /-- It admits nothing any more and ends what is queued. -/
  | stopping
  | stopped
  deriving DecidableEq, Repr

namespace Dispatcher

/-- The request being held. -/
def held : Dispatcher → List Request
  | .holding r => [r]
  | _ => []

end Dispatcher

/-- A manager with its requests, each of them in one place. -/
structure Manager where
  vault : Vault
  closed : Bool := false
  /-- How many callers and requests forbid pruning; `enterPruning` says what bounds the count. -/
  pruning : Nat := 0
  throttle : Throttle
  hub : EpochHub Unit := {}
  /-- Requests that wait for room in their queue, in the order of submission. -/
  waiting : List Request := []
  /-- Requests that have been given room in their queue. -/
  granted : List Request := []
  snapshots : List Request := []
  checkpoints : List Request := []
  dispatcher : Dispatcher := .idle
  /-- Admitted requests, in the order of admission. -/
  walks : List Walk := []
  finished : List Request := []
  /-- Requests whose submission was given up by the caller before it returned. -/
  withdrawn : List Request := []
  /-- How many requests have been submitted. -/
  submitted : Nat := 0

namespace Manager

/-! ## Pruning -/

/-- Forbids pruning once more.  The count stands for one of 32 bits but never turns over here, so
runs are meant to have fewer than 2 ^ 32 prohibitions at any time: those come to the same with a
count that does turn over (`runInWord?_eq`). -/
def enterPruning (m : Manager) : Manager := { m with pruning := m.pruning + 1 }

/-- Takes one prohibition back; with none left this does nothing. -/
def exitPruning (m : Manager) : Manager := { m with pruning := m.pruning - 1 }

/-- Whether pruning is forbidden. -/
def isPruningBlocked (m : Manager) : Bool := m.pruning != 0

/-! ## Reading and writing -/

def get (m : Manager) (key : Bytes) : Except ManagerError Bytes := m.vault.get key

def put (m : Manager) (key value : Bytes) : Except ManagerError Unit × Manager :=
  let (answer, vault) := m.vault.put key value
  (answer, { m with vault })

/-- Stops tracking a hash and drops it from the main store. -/
def remove (m : Manager) (hash : NodeHash) : Except ManagerError Unit × Manager :=
  let (answer, vault) := m.vault.remove hash
  (answer, { m with vault })

/-- Tracks the hashes of a commit; tells whether a checkpoint is due. -/
def addDirty (m : Manager) (root : NodeHash) (hashes : List NodeHash) : Bool × Manager :=
  let (due, tracker) := m.vault.tracker.put root hashes
  (due, { m with vault := { m.vault with tracker } })

/-- Whether a hash is pending. -/
def shouldCommit (m : Manager) (hash : NodeHash) : Bool := m.vault.tracker.shouldCommit hash

/-! ## Epochs -/

/-- Sends later writes to the partition of an epoch, if the main store has any. -/
def selectEpoch (m : Manager) (epoch : Epoch) : Manager :=
  { m with vault := m.vault.selectEpoch epoch }

/-- Confirms an epoch to this manager alone. -/
def confirmEpoch (m : Manager) (epoch : Epoch) : Manager :=
  { m with vault := m.vault.confirmEpoch m.closed epoch }

/-- Hands out what the hub delivers. -/
def deliverEpochs (m : Manager) (deliveries : List (Unit × Epoch)) : Manager :=
  deliveries.foldl (fun m delivery => m.confirmEpoch delivery.2) m

def checkEpoch (m : Manager) (epoch : Epoch) : Manager :=
  let (hub, deliveries) := m.hub.confirm epoch
  { m with hub }.deliverEpochs deliveries

/-! ## Closing -/

/-- Closes every store, whether or not an earlier one fails, and reports the
last failure.  Walks and queued requests end by moves that follow.  A second
call does nothing. -/
def close (m : Manager) : Except ManagerError Unit × Manager :=
  if m.closed then (.ok (), m)
  else
    let (answer, vault) := m.vault.close
    (answer, { m with vault, closed := true })

/-! ## Requests -/

def queue (m : Manager) : RequestKind → List Request
  | .snapshot => m.snapshots
  | .checkpoint => m.checkpoints

def setQueue (m : Manager) (kind : RequestKind) (queue : List Request) : Manager :=
  match kind with
  | .snapshot => { m with snapshots := queue }
  | .checkpoint => { m with checkpoints := queue }

/-- Whether the queue of a kind has room for one more. -/
def hasRoom (m : Manager) (kind : RequestKind) : Bool :=
  (m.queue kind).length + (m.granted.countP fun r => r.kind = kind) < m.vault.config.snapshotsBufferLen

/-- Ends a request that never blocked pruning. -/
def finishAtOnce (m : Manager) (r : Request) : Manager :=
  { m with finished := m.finished ++ [r.finish] }

/-- Ends a request that blocks pruning. -/
def finishRequest (m : Manager) (r : Request) : Manager := m.exitPruning.finishAtOnce r

/-- The hashes that stay pending when a request is submitted: a snapshot of a
root settles everything up to that root. -/
def trackerOnSubmit (tracker : Tracker) (kind : RequestKind) (root : NodeHash) : Tracker :=
  match kind with
  | .snapshot => tracker.removeCommitted root
  | .checkpoint => tracker

/-- Submits a request, which has been announced to its statistics. -/
def submit (m : Manager) (kind : RequestKind) (root : NodeHash) (sink : Option LeafSink) :
    Manager :=
  let r : Request := { id := m.submitted, kind, root, sink, stats := Statistics.start {} }
  let m := { m with submitted := m.submitted + 1 }
  if m.closed || root.isEmptyTrie then m.finishAtOnce r
  else
    let tracker := trackerOnSubmit m.vault.tracker kind root
    { m.enterPruning with vault := { m.vault with tracker }, waiting := m.waiting ++ [r] }

/-- Requests that have neither ended nor been withdrawn. -/
def live (m : Manager) : List Request :=
  m.waiting ++ m.granted ++ m.snapshots ++ m.checkpoints ++ m.dispatcher.held ++
    m.walks.map Walk.request

/-- All requests ever submitted. -/
def requests (m : Manager) : List Request := m.live ++ m.finished ++ m.withdrawn

def request? (m : Manager) (id : RequestId) : Option Request :=
  m.requests.find? fun r => r.id = id

/-- Whether the submission of a request has returned. -/
def hasReturned (m : Manager) (id : RequestId) : Bool :=
  !(m.waiting ++ m.granted).any fun r => r.id = id

/-- Changes a request, wherever it is. -/
def mapRequests (m : Manager) (change : Request → Request) : Manager :=
  { m with
    waiting := m.waiting.map change
    granted := m.granted.map change
    snapshots := m.snapshots.map change
    checkpoints := m.checkpoints.map change
    dispatcher :=
      match m.dispatcher with
      | .holding r => .holding (change r)
      | d => d
    walks := m.walks.map fun w => { w with request := change w.request }
    finished := m.finished.map change
    withdrawn := m.withdrawn.map change }

/-- Changes the sink of the request of a number. -/
def onSink (m : Manager) (id : RequestId) (change : LeafSink → LeafSink) : Manager :=
  m.mapRequests fun r => if r.id = id then r.onSink change else r

/-- The reader of a request's sink takes the oldest leaf. -/
def takeLeaf (m : Manager) (id : RequestId) : Option Leaf × Manager :=
  let leaf := do
    let sink ← (← m.request? id).sink
    sink.take.1
  (leaf, m.onSink id fun sink => sink.take.2)

/-- The reader of a request's sink leaves. -/
def dropReader (m : Manager) (id : RequestId) : Manager := m.onSink id LeafSink.dropReader

/-- The caller gives up a submission that has not returned: its sink is let go
of, and nothing else happens. -/
def withdraw (m : Manager) (id : RequestId) : Manager :=
  let given := (m.waiting ++ m.granted).filter fun r => r.id = id
  { m with
    waiting := m.waiting.filter fun r => r.id ≠ id
    granted := m.granted.filter fun r => r.id ≠ id
    withdrawn := m.withdrawn ++ given.map fun r => r.onSink LeafSink.detach }

/-- Replaces what a layer refuses. -/
def setRefusals (m : Manager) (name : LayerName) (list : List Refusal) : Manager :=
  { m with vault :=
      { m.vault with storage :=
          { m.vault.storage with refusals := m.vault.storage.refusals.set name list } } }

/-- A one-line description. -/
def describe (m : Manager) : String :=
  "TrieStorageManager \x7b pruning_blocking_ops: " ++ toString m.pruning ++
    ", closed: " ++ toString m.closed ++
    ", legacy_phase: " ++ m.vault.legacy.phase.text ++
    ", legacy_disabled: " ++ toString m.vault.legacy.disabled ++ " \x7d"

end Manager

end TrieStorage
