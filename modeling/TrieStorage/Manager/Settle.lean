import TrieStorage.Manager.Moves

/-!
# Coming to rest

Left to itself, a manager makes moves until none is left.  `nextMove?` fixes
one order: walks first, oldest first, then submissions, then the dispatcher.
Which order is taken does not show in what is left at rest.  Walks on a graph
with a cycle need not come to rest, so moves are rationed.
-/

namespace TrieStorage

namespace Walk

/-- The move of a walk, unless it waits for its reader. -/
def nextMove? (closed : Bool) (w : Walk) : Option Move :=
  match w.phase with
  | .starting => some (.begin w.request.id)
  | .visiting _ _ => some (.visit w.request.id)
  | .sending _ _ _ => if w.canSend closed then some (.send w.request.id) else none
  | .ended _ => some (.release w.request.id)
  | .released _ => some (.finish w.request.id)

end Walk

namespace Manager

def nextSubmission? (m : Manager) : Option Move :=
  match m.granted, m.waiting with
  | r :: _, _ => some (.enqueue r.id)
  | [], [] => none
  | [], r :: rest =>
    if m.closed then some (.reject r.id)
    else ((r :: rest).find? fun s => m.hasRoom s.kind).map fun s => .grant s.id

def nextDispatch? (m : Manager) : Option Move :=
  match m.dispatcher with
  | .idle =>
    if m.closed then some .halt
    else if !m.snapshots.isEmpty then some (.dequeue .snapshot)
    else if !m.checkpoints.isEmpty then some (.dequeue .checkpoint)
    else none
  | .holding _ =>
    if m.closed then some .giveUp
    else if m.throttle.canProcess then some .launch
    else none
  | .stopping => if m.snapshots.isEmpty && m.checkpoints.isEmpty then some .stop else some .drain
  | .stopped => none

/-- The next move in a fixed order. -/
def nextMove? (m : Manager) : Option Move :=
  (m.walks.findSome? fun w => w.nextMove? m.closed) <|> m.nextSubmission? <|> m.nextDispatch?

/-- Makes at most so many moves. -/
def settleWithin : Nat → Manager → Manager
  | 0, m => m
  | ration + 1, m =>
    match m.nextMove? >>= m.move? with
    | some next => settleWithin ration next
    | none => m

/-- How many moves fit into one second, at one move in a nanosecond. -/
def secondOfMoves : Nat := 1000000000

/-- Lets the manager come to rest. -/
def settle (m : Manager) : Manager := settleWithin secondOfMoves m

/-- What a reader got out of a sink. -/
structure Reception where
  leaves : List Leaf := []
  /-- Whether it stopped because no more leaves will follow. -/
  ended : Bool := false
  deriving DecidableEq, Repr

/-- Lets the reader of a sink take leaves, up to a number and as long as there
are any; the manager comes to rest before each of them. -/
def receive (id : RequestId) : Nat → Manager → Reception × Manager
  | 0, m => ({}, m)
  | count + 1, m =>
    let m := m.settle
    match m.takeLeaf id with
    | (some leaf, m) =>
      let (rest, m) := receive id count m
      ({ rest with leaves := leaf :: rest.leaves }, m)
    | (none, m) =>
      let sink := (m.request? id).bind Request.sink
      ({ ended := sink.any LeafSink.exhausted }, m)

end Manager

end TrieStorage
