import TrieStorage.Storage.Layer

/-!
# All layers together

The three layers a manager is given, every generation store that has been
opened so far, and the disk under them.  A generation store keeps its number
for good, so that whoever was given it goes on using the same store after it
has left the list of generations.
-/

namespace TrieStorage

/-- A way to refer to a layer. -/
inductive LayerId where
  | main
  | db
  | checkpoints
  /-- The generation store that was opened as number `serial`. -/
  | generation (serial : Nat)
  deriving DecidableEq, Repr

/-- The disk, the layers on it, and what they refuse. -/
structure Storage where
  disk : Disk
  main : Layer
  db : Layer
  checkpoints : Layer
  /-- Every generation store opened so far, in order. -/
  opened : List Layer := []
  refusals : Refusals := []

namespace Storage

/-- The layer referred to. -/
def layer? (s : Storage) : LayerId → Option Layer
  | .main => some s.main
  | .db => some s.db
  | .checkpoints => some s.checkpoints
  | .generation serial => s.opened[serial]?

/-- The storage after a layer has changed. -/
def setLayer (s : Storage) (id : LayerId) (layer : Layer) : Storage :=
  match id with
  | .main => { s with main := layer }
  | .db => { s with db := layer }
  | .checkpoints => { s with checkpoints := layer }
  | .generation serial => { s with opened := s.opened.set serial layer }

/-- The layer of a name; of several generations of one name, the one opened last. -/
def named? (s : Storage) : LayerName → Option LayerId
  | .main => some .main
  | .db => some .db
  | .checkpoints => some .checkpoints
  | .generation directory =>
    let hits := s.opened.zipIdx.filter fun l => l.1.name = .generation directory
    hits.getLast?.map fun l => .generation l.2

def get (s : Storage) (id : LayerId) (key : Bytes) : Except StoreError (Option Bytes) :=
  match s.layer? id with
  | none => .error .closed
  | some layer => layer.get s.refusals key

/-- Puts a value under a key of a layer. -/
def put (s : Storage) (id : LayerId) (key value : Bytes) : Except StoreError Unit × Storage :=
  match s.layer? id with
  | none => (.error .closed, s)
  | some layer =>
    let (answer, layer, disk) := layer.put s.refusals s.disk key value
    (answer, { s with disk }.setLayer id layer)

def remove (s : Storage) (id : LayerId) (key : Bytes) : Except StoreError Unit × Storage :=
  match s.layer? id with
  | none => (.error .closed, s)
  | some layer =>
    let (answer, layer, disk) := layer.remove s.refusals s.disk key
    (answer, { s with disk }.setLayer id layer)

def close (s : Storage) (id : LayerId) : Except StoreError Unit × Storage :=
  match s.layer? id with
  | none => (.error .closed, s)
  | some layer =>
    let (answer, layer) := layer.close s.refusals
    (answer, s.setLayer id layer)

/-- Reads a layer in passing: a failure and an empty value count as nothing. -/
def peek (s : Storage) (id : LayerId) (key : Bytes) : Option Bytes :=
  match s.get id key with
  | .ok (some value) => if value.isEmpty then none else some value
  | .ok none => none
  | .error _ => none

/-- Opens the store of a generation directory. -/
def openGeneration (s : Storage) (opener : Opener) (dir : String) :
    Except StoreError LayerId × Storage :=
  let name := LayerName.generation (Path.lastName dir)
  if s.refusals.refuse name .opening none then (.error (Refusals.report name .opening), s)
  else
    match opener.openAt s.disk dir with
    | (.error e, disk) => (.error e, { s with disk })
    | (.ok store, disk) =>
      (.ok (.generation s.opened.length),
        { s with disk, opened := s.opened ++ [{ name, store }] })

/-- Changes the store of a layer directly, past its counters and refusals. -/
def onStore {α : Type} (s : Storage) (id : LayerId) (change : Store → Disk → α × Store × Disk) :
    Option (α × Storage) :=
  (s.layer? id).map fun layer =>
    let (answer, store, disk) := change layer.store s.disk
    (answer, { s with disk }.setLayer id { layer with store })

end Storage

end TrieStorage
