import TrieStorage.Manager.Moves

/-!
# Events

A run of a manager is a list of events: what its callers and the readers of its
sinks do, and the moves it makes on its own.  An action can always be done; a
move only in its turn.  A run that contains a move out of turn does not exist.
-/

namespace TrieStorage

/-- What callers and readers do.  Reading a value changes nothing, so it is not
among the actions. -/
inductive Action where
  | put (key value : Bytes)
  | remove (hash : NodeHash)
  | addDirty (root : NodeHash) (hashes : List NodeHash)
  | enterPruning
  | exitPruning
  | selectEpoch (epoch : Epoch)
  /-- An epoch is confirmed to the manager alone. -/
  | confirmEpoch (epoch : Epoch)
  /-- An epoch is confirmed through the hub. -/
  | checkEpoch (epoch : Epoch)
  | submit (kind : RequestKind) (root : NodeHash) (sink : Option LeafSink)
  /-- A caller gives up a submission that has not returned. -/
  | withdraw (id : RequestId)
  | takeLeaf (id : RequestId)
  | dropReader (id : RequestId)
  | setRefusals (name : LayerName) (list : List Refusal)
  | close
  deriving DecidableEq, Repr

/-- A step of a run. -/
inductive Event where
  | action (a : Action)
  | move (mv : Move)
  deriving DecidableEq, Repr

namespace Manager

/-- The manager after an action, whatever was answered. -/
def act (m : Manager) : Action → Manager
  | .put key value => (m.put key value).2
  | .remove hash => (m.remove hash).2
  | .addDirty root hashes => (m.addDirty root hashes).2
  | .enterPruning => m.enterPruning
  | .exitPruning => m.exitPruning
  | .selectEpoch epoch => m.selectEpoch epoch
  | .confirmEpoch epoch => m.confirmEpoch epoch
  | .checkEpoch epoch => m.checkEpoch epoch
  | .submit kind root sink => m.submit kind root sink
  | .withdraw id => m.withdraw id
  | .takeLeaf id => (m.takeLeaf id).2
  | .dropReader id => m.dropReader id
  | .setRefusals name list => m.setRefusals name list
  | .close => m.close.2

/-- The manager after an event, if that can happen. -/
def step? (m : Manager) : Event → Option Manager
  | .action a => some (m.act a)
  | .move mv => m.move? mv

/-- The manager after a run, if every event of it can happen. -/
def run? (m : Manager) : List Event → Option Manager
  | [] => some m
  | event :: rest => (m.step? event).bind fun next => run? next rest

/-- Whether nothing is left for the manager to do on its own. -/
def AtRest (m : Manager) : Prop := ∀ mv, m.move? mv = none

end Manager

end TrieStorage
