import TrieStorage.Manager.Basic

/-!
# Moves

What a manager does on its own, one indivisible move at a time.  A move names
the request it is about; it happens only if that request is the one whose turn
it is, so a list of moves tells the whole story.  Moves of different requests
may come in any order.  A dispatcher that has not yet noticed that the manager
is closed may still take and admit requests.
-/

namespace TrieStorage

/-- A move of the manager. -/
inductive Move where
  /-- The longest waiting request of a kind is given room in its queue. -/
  | grant (id : RequestId)
  /-- A request enters its queue, or ends if the manager has been closed. -/
  | enqueue (id : RequestId)
  /-- A waiting request ends because the manager has been closed. -/
  | reject (id : RequestId)
  /-- The dispatcher takes the head of the queue of a kind. -/
  | dequeue (kind : RequestKind)
  /-- The held request is given a slot, and its walk begins. -/
  | launch
  /-- The held request ends because the manager has been closed while it waited. -/
  | giveUp
  /-- The dispatcher notices that the manager has been closed. -/
  | halt
  /-- A queued request ends because the dispatcher admits nothing any more. -/
  | drain
  /-- The dispatcher stops; nothing is queued or about to be. -/
  | stop
  /-- A walk chooses where to copy. -/
  | begin (id : RequestId)
  /-- A walk visits a node, or notices that none is left. -/
  | visit (id : RequestId)
  /-- A walk puts a leaf into its sink. -/
  | send (id : RequestId)
  /-- A walk gives its slot back. -/
  | release (id : RequestId)
  /-- A walk reports the end of its request. -/
  | finish (id : RequestId)
  deriving DecidableEq, Repr

namespace Manager

/-- Takes the request of a number out of a list. -/
def pick? (id : RequestId) (rs : List Request) : Option (Request × List Request) :=
  (rs.find? fun r => r.id = id).map fun r => (r, rs.filter fun s => s.id ≠ id)

def walk? (m : Manager) (id : RequestId) : Option Walk :=
  m.walks.find? fun w => w.request.id = id

def setWalk (m : Manager) (w : Walk) : Manager :=
  { m with walks := m.walks.map fun x => if x.request.id = w.request.id then w else x }

/-- The manager after a walk and the vault have changed. -/
def advance (m : Manager) (next : Walk × Vault) : Manager :=
  { m with vault := next.2 }.setWalk next.1

/-- Gives room to the longest waiting request of its kind. -/
def grant? (m : Manager) (id : RequestId) : Option Manager := do
  let (r, rest) ← pick? id m.waiting
  let first ← m.waiting.find? fun s => s.kind = r.kind
  if first.id = id ∧ !m.closed ∧ m.hasRoom r.kind then
    some { m with waiting := rest, granted := m.granted ++ [r] }
  else none

/-- Puts a request into its queue; in a closed manager it ends. -/
def enqueue? (m : Manager) (id : RequestId) : Option Manager := do
  let (r, rest) ← pick? id m.granted
  let m := { m with granted := rest }
  if m.closed then some (m.finishRequest r)
  else some (m.setQueue r.kind (m.queue r.kind ++ [r]))

/-- Ends a waiting request of a closed manager. -/
def reject? (m : Manager) (id : RequestId) : Option Manager := do
  let (r, rest) ← pick? id m.waiting
  if m.closed then some ({ m with waiting := rest }.finishRequest r) else none

/-- Takes the head of a queue into the dispatcher's hands. -/
def dequeue? (m : Manager) (kind : RequestKind) : Option Manager :=
  match m.dispatcher, m.queue kind with
  | .idle, r :: rest => some { m.setQueue kind rest with dispatcher := .holding r }
  | _, _ => none

/-- Starts the walk of the held request, if a slot is free. -/
def launch? (m : Manager) : Option Manager :=
  match m.dispatcher with
  | .holding r =>
    if m.throttle.canProcess then
      some { m with
        dispatcher := .idle
        throttle := m.throttle.start
        walks := m.walks ++ [{ request := r }] }
    else none
  | _ => none

/-- Ends the held request of a closed manager. -/
def giveUp? (m : Manager) : Option Manager :=
  match m.dispatcher with
  | .holding r =>
    if m.closed then some ({ m with dispatcher := .stopping }.finishRequest r) else none
  | _ => none

/-- Stops admitting requests in a closed manager. -/
def halt? (m : Manager) : Option Manager :=
  match m.dispatcher with
  | .idle => if m.closed then some { m with dispatcher := .stopping } else none
  | _ => none

/-- Ends the next queued request. -/
def drain? (m : Manager) : Option Manager :=
  match m.dispatcher, m.snapshots, m.checkpoints with
  | .stopping, r :: rest, _ => some ({ m with snapshots := rest }.finishRequest r)
  | .stopping, [], r :: rest => some ({ m with checkpoints := rest }.finishRequest r)
  | _, _, _ => none

/-- Stops the dispatcher when nothing can enter a queue any more. -/
def stop? (m : Manager) : Option Manager :=
  match m.dispatcher with
  | .stopping =>
    if m.snapshots.isEmpty && m.checkpoints.isEmpty && m.granted.isEmpty then
      some { m with dispatcher := .stopped }
    else none
  | _ => none

def begin? (m : Manager) (id : RequestId) : Option Manager := do
  let w ← m.walk? id
  match w.phase with
  | .starting => some (m.advance (w.start m.vault))
  | _ => none

def visit? (m : Manager) (id : RequestId) : Option Manager := do
  let w ← m.walk? id
  match w.phase with
  | .visiting target stack => some (m.advance (w.visit m.closed m.vault target stack))
  | _ => none

/-- Lets a walk put a leaf into its sink, unless it has to wait. -/
def send? (m : Manager) (id : RequestId) : Option Manager := do
  let w ← m.walk? id
  match w.phase with
  | .sending target leaf stack =>
    if w.canSend m.closed then some (m.setWalk (w.send m.closed target leaf stack)) else none
  | _ => none

/-- Takes back the slot of a walk that has ended. -/
def release? (m : Manager) (id : RequestId) : Option Manager := do
  let w ← m.walk? id
  match w.phase with
  | .ended outcome =>
    some { m.setWalk (w.inPhase (.released outcome)) with throttle := m.throttle.finish }
  | _ => none

/-- Ends the request of a walk that holds no slot any more. -/
def finish? (m : Manager) (id : RequestId) : Option Manager := do
  let w ← m.walk? id
  match w.phase with
  | .released _ =>
    some ({ m with walks := m.walks.filter fun x => x.request.id ≠ id }.finishRequest w.request)
  | _ => none

/-- Makes a move, if it can be made. -/
def move? (m : Manager) : Move → Option Manager
  | .grant id => m.grant? id
  | .enqueue id => m.enqueue? id
  | .reject id => m.reject? id
  | .dequeue kind => m.dequeue? kind
  | .launch => m.launch?
  | .giveUp => m.giveUp?
  | .halt => m.halt?
  | .drain => m.drain?
  | .stop => m.stop?
  | .begin id => m.begin? id
  | .visit id => m.visit? id
  | .send id => m.send? id
  | .release id => m.release? id
  | .finish id => m.finish? id

end Manager

end TrieStorage
