import TrieStorage.Generation.Discovery

/-!
# The old layout

A primary store and generations, oldest first.  It is read, and grows, only
while it is active and not disabled.  A new generation carries the mark of an
active store; then the oldest ones are dropped until few enough are left, each
closed and, unless they are to be kept, its directory removed.  Closing happens
once and attempts every store; the last failure is reported.
-/

namespace TrieStorage

/-- The key whose value marks a store as active. -/
def activeKey : Bytes := [97, 99, 116, 105, 118, 101, 68, 66]

/-- The value that marks a store as active. -/
def activeValue : Bytes := [121, 101, 115]

/-- Where the old layout is in its life. -/
inductive LegacyPhase where
  | active
  | migratingOut
  | closed
  deriving DecidableEq, Repr

namespace LegacyPhase

def text : LegacyPhase → String
  | .active => "Active"
  | .migratingOut => "MigratingOut"
  | .closed => "Closed"

end LegacyPhase

/-- How many generations stay open, and whether dropped ones stay on disk. -/
structure Retention where
  max : Nat
  keepOnDisk : Bool
  deriving DecidableEq, Repr

/-- The old layout; its primary store is the layer `db`. -/
structure Legacy where
  phase : LegacyPhase := .active
  disabled : Bool := false
  /-- Oldest first. -/
  generations : List Generation := []
  /-- The number of the next generation. -/
  nextId : Nat := 0
  deriving DecidableEq, Repr

namespace Legacy

/-- Whether the layout is read and may grow. -/
def usable (l : Legacy) : Bool := !l.disabled && l.phase = .active

def adopt (l : Legacy) (d : Discovery) : Legacy :=
  { l with generations := d.generations, nextId := d.nextId }

/-- The layers in the order in which they are read. -/
def readOrder (l : Legacy) : List LayerId :=
  if l.usable then .db :: l.generations.reverse.map Generation.layer else []

/-- The first value under a key. -/
def get (l : Legacy) (s : Storage) (key : Bytes) : Option Bytes :=
  l.readOrder.findSome? fun id => s.peek id key

/-- Lets go of a generation: closes it, and removes its directory unless it is
to be kept.  Failures change nothing. -/
def dropGeneration (keepOnDisk : Bool) (g : Generation) (s : Storage) : Storage :=
  let s := (s.close g.layer).2
  if keepOnDisk then s
  else
    match s.disk.removeTree g.path with
    | some disk => { s with disk }
    | none => s

/-- Drops a number of generations, oldest first. -/
def evict (keepOnDisk : Bool) : Nat → List Generation → Storage → List Generation × Storage
  | 0, gs, s => (gs, s)
  | _ + 1, [], s => ([], s)
  | n + 1, g :: gs, s => evict keepOnDisk n gs (dropGeneration keepOnDisk g s)

/-- Opens the next generation, marks it as active and drops the oldest ones.  Numbers stand for
those of 32 bits but do not turn over here, so a layout is meant to be grown while
`nextId + 1 < Generation.idBound`. -/
def create (l : Legacy) (root : String) (opener : Opener) (retention : Retention) (s : Storage) :
    Except StoreError LayerId × Legacy × Storage :=
  match Generation.openIn root l.nextId opener s with
  | (.error e, s) => (.error e, l, s)
  | (.ok g, s) =>
    match s.put g.layer activeKey activeValue with
    | (.error e, s) => (.error e, l, s)
    | (.ok (), s) =>
      let all := l.generations ++ [g]
      let (generations, s) := evict retention.keepOnDisk (all.length - retention.max) all s
      (.ok g.layer, { l with generations, nextId := l.nextId + 1 }, s)

/-- The newest generation, made if there is none. -/
def latest (l : Legacy) (root : String) (opener : Opener) (retention : Retention) (s : Storage) :
    Except StoreError LayerId × Legacy × Storage :=
  match l.generations.getLast? with
  | some g => (.ok g.layer, l, s)
  | none => l.create root opener retention s

/-- Closes layers in turn; `answer` is that of the layers before. -/
def closeLayers (answer : Except StoreError Unit) :
    List LayerId → Storage → Except StoreError Unit × Storage
  | [], s => (answer, s)
  | id :: rest, s =>
    match s.close id with
    | (.ok (), s) => closeLayers answer rest s
    | (.error e, s) => closeLayers (.error e) rest s

/-- Closes the primary store and all generations, once. -/
def close (l : Legacy) (s : Storage) : Except StoreError Unit × Legacy × Storage :=
  if l.phase = .active then
    let (answer, s) := closeLayers (.ok ()) (.db :: l.generations.map Generation.layer) s
    (answer, { l with phase := .closed, generations := [] }, s)
  else (.ok (), l, s)

end Legacy

end TrieStorage
