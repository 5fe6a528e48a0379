import TrieStorage.Manager.Vault

/-!
# Walks

A walk copies the trie under a root into a layer, depth first and left to
right, with the hashes still to be visited on a stack.  One visit reads a node,
checks that it hashes to its address, decodes it, copies it, and counts it; a
leaf is then offered to the sink before the next visit.  A checkpoint passes
over every hash that is not pending, and copying makes a hash no longer
pending.  The walk holds a slot until it has ended and given the slot back.
-/

namespace TrieStorage

/-- How a walk came to its end. -/
inductive Outcome where
  /-- Everything below the root has been visited. -/
  | complete
  /-- The store to copy into is not active. -/
  | abandoned
  | failed (cause : ManagerError)
  deriving DecidableEq, Repr

/-- What a walk does next. -/
inductive WalkPhase where
  /-- It has yet to choose where to copy. -/
  | starting
  /-- It visits the top of the stack. -/
  | visiting (target : LayerId) (stack : List NodeHash)
  /-- It puts a leaf into the sink, and goes on with the stack. -/
  | sending (target : LayerId) (leaf : Leaf) (stack : List NodeHash)
  /-- It gives the slot back. -/
  | ended (outcome : Outcome)
  /-- It reports the end of its request. -/
  | released (outcome : Outcome)
  deriving DecidableEq, Repr

namespace WalkPhase

/-- Whether the walk holds a slot. -/
def holdsSlot : WalkPhase → Bool
  | .released _ => false
  | _ => true

/-- The layer being copied into. -/
def target? : WalkPhase → Option LayerId
  | .visiting target _ => some target
  | .sending target _ _ => some target
  | _ => none

end WalkPhase

/-- A request whose trie is being copied. -/
structure Walk where
  request : Request
  phase : WalkPhase := .starting
  deriving DecidableEq, Repr

namespace Walk

def inPhase (w : Walk) (phase : WalkPhase) : Walk := { w with phase }

def fail (w : Walk) (cause : ManagerError) : Walk := w.inPhase (.ended (.failed cause))

/-- Chooses where to copy, and starts at the root. -/
def start (w : Walk) (v : Vault) : Walk × Vault :=
  match v.target w.request.kind with
  | (.error e, v) => (w.fail (.store e), v)
  | (.ok none, v) => (w.inPhase (.ended .abandoned), v)
  | (.ok (some target), v) => (w.inPhase (.visiting target [w.request.root]), v)

/-- Reads the node at an address: its stored form, which hashes to the
address, and what that decodes to. -/
def readNode (v : Vault) (hash : NodeHash) : Except ManagerError (Bytes × Node) :=
  match v.lookup hash.bytes with
  | none => .error (.missingNode hash)
  | some encoded =>
    let computed := v.scheme.address encoded
    if computed = hash then
      match v.scheme.decode encoded with
      | .ok node => .ok (encoded, node)
      | .error e => .error (.codec e)
    else .error (.nodeHashMismatch hash computed)

/-- Whether a hash is passed over: a checkpoint copies only what is pending. -/
def skips (v : Vault) (kind : RequestKind) (hash : NodeHash) : Bool :=
  kind = .checkpoint && !v.tracker.shouldCommit hash

/-- The vault once a node has been copied. -/
def noteCopied (v : Vault) (kind : RequestKind) (hash : NodeHash) : Vault :=
  match kind with
  | .snapshot => v
  | .checkpoint => { v with tracker := v.tracker.remove hash }

/-- The phase after a node has been copied. -/
def afterCopy (r : Request) (target : LayerId) (node : Node) (stack : List NodeHash) : WalkPhase :=
  match node.entry? with
  | some leaf =>
    if r.streams then .sending target leaf (node.children ++ stack)
    else .visiting target (node.children ++ stack)
  | none => .visiting target (node.children ++ stack)

/-- Copies the node at an address. -/
def copy (w : Walk) (v : Vault) (target : LayerId) (hash : NodeHash) (stack : List NodeHash) :
    Walk × Vault :=
  match readNode v hash with
  | .error e => (w.fail e, v)
  | .ok (encoded, node) =>
    match v.putInto target hash.bytes encoded with
    | (.error e, v) => (w.fail (.store e), v)
    | (.ok (), v) =>
      ({ request := w.request.countNode encoded.length node.entry?.isSome
         phase := afterCopy w.request target node stack },
        noteCopied v w.request.kind hash)

/-- One visit; the manager's being closed ends the walk. -/
def visit (closed : Bool) (w : Walk) (v : Vault) (target : LayerId) (stack : List NodeHash) :
    Walk × Vault :=
  match stack with
  | [] => (w.inPhase (.ended .complete), v)
  | hash :: rest =>
    if closed then (w.fail .contextClosing, v)
    else if skips v w.request.kind hash then (w.inPhase (.visiting target rest), v)
    else w.copy v target hash rest

/-- Whether a walk that sends a leaf can go on. -/
def canSend (closed : Bool) (w : Walk) : Bool :=
  closed || !w.request.sink.any LeafSink.blocks

/-- Puts the leaf into the sink; the manager's being closed ends the walk. -/
def send (closed : Bool) (w : Walk) (target : LayerId) (leaf : Leaf) (stack : List NodeHash) :
    Walk :=
  if closed then w.fail .contextClosing
  else { request := w.request.onSink fun sink => sink.offer leaf, phase := .visiting target stack }

end Walk

end TrieStorage
