import TrieStorage.Bytes.Hex
import TrieStorage.Store.Kinds

/-!
# Layers

A layer is a store under a name.  Its writes, removals and attempts to close
are counted, refused ones as well, and it can be told to refuse calls: all of a
kind, or those for one key.  A refused call does not reach the store.
-/

namespace TrieStorage

/-- The names of layers. -/
inductive LayerName where
  | main
  | db
  | checkpoints
  /-- The generation in the directory of this name. -/
  | generation (directory : String)
  deriving DecidableEq, Repr

namespace LayerName

def text : LayerName → String
  | .main => "main"
  | .db => "db"
  | .checkpoints => "checkpoints"
  | .generation directory => "gen:" ++ directory

end LayerName

/-- What can be asked of a layer. -/
inductive Call where
  | get
  | put
  | remove
  | close
  | opening
  deriving DecidableEq, Repr

namespace Call

def text : Call → String
  | .get => "get"
  | .put => "put"
  | .remove => "remove"
  | .close => "close"
  | .opening => "open"

end Call

/-- A call to be refused, for one key or for all. -/
structure Refusal where
  call : Call
  key : Option Bytes := none
  deriving DecidableEq, Repr

/-- Which layers refuse which calls. -/
abbrev Refusals := List (LayerName × List Refusal)

namespace Refusals

def of (refusals : Refusals) (name : LayerName) : List Refusal :=
  ((refusals.find? fun r => r.1 = name).map Prod.snd).getD []

def set (refusals : Refusals) (name : LayerName) (list : List Refusal) : Refusals :=
  (name, list) :: refusals.filter fun r => r.1 ≠ name

/-- Whether a call is refused; calls without a key only as a whole. -/
def refuse (refusals : Refusals) (name : LayerName) (call : Call) (key : Option Bytes) : Bool :=
  (refusals.of name).any fun r => r.call = call ∧ (r.key = none ∨ (key.isSome ∧ r.key = key))

def report (name : LayerName) (call : Call) : StoreError :=
  .serialization (name.text ++ " " ++ call.text)

end Refusals

/-- A store under a name, with its traffic counted. -/
structure Layer where
  name : LayerName
  store : Store
  puts : Nat := 0
  removes : Nat := 0
  closes : Nat := 0

namespace Layer

def get (layer : Layer) (refusals : Refusals) (key : Bytes) : Except StoreError (Option Bytes) :=
  if refusals.refuse layer.name .get (some key) then .error (Refusals.report layer.name .get)
  else layer.store.get key

def put (layer : Layer) (refusals : Refusals) (disk : Disk) (key value : Bytes) :
    Except StoreError Unit × Layer × Disk :=
  let counted := { layer with puts := layer.puts + 1 }
  if refusals.refuse layer.name .put (some key) then
    (.error (Refusals.report layer.name .put), counted, disk)
  else
    let (answer, store, disk) := layer.store.put disk key value
    (answer, { counted with store }, disk)

def remove (layer : Layer) (refusals : Refusals) (disk : Disk) (key : Bytes) :
    Except StoreError Unit × Layer × Disk :=
  let counted := { layer with removes := layer.removes + 1 }
  if refusals.refuse layer.name .remove (some key) then
    (.error (Refusals.report layer.name .remove), counted, disk)
  else
    let (answer, store, disk) := layer.store.remove disk key
    (answer, { counted with store }, disk)

def close (layer : Layer) (refusals : Refusals) : Except StoreError Unit × Layer :=
  let counted := { layer with closes := layer.closes + 1 }
  if refusals.refuse layer.name .close none then
    (.error (Refusals.report layer.name .close), counted)
  else
    let (answer, store) := layer.store.close
    (answer, { counted with store })

end Layer

end TrieStorage
