import TrieStorage.Node.Hash

/-!
# Pending hashes

Each commit leaves the hashes it modified under the root it produced.  They are
pending until they have been copied, until they are removed, or until a later
root, or their own, is known to be committed as a whole.  The size estimate
charges the width of one hash for every root and for every hash.
-/

namespace TrieStorage

/-- The hashes one commit modified, each of them once. -/
structure Pending where
  root : NodeHash
  hashes : List NodeHash
  deriving DecidableEq, Repr

/-- Pending hashes by commit, oldest commit first. -/
structure Tracker where
  /-- The size above which a commit asks for a checkpoint. -/
  budget : Nat
  entries : List Pending := []
  /-- The running size estimate. -/
  size : Nat := 0
  deriving DecidableEq, Repr

namespace Tracker

/-- What one hash is charged. -/
def hashWidth : Nat := 32

/-- What one commit is charged. -/
def entrySize (e : Pending) : Nat := hashWidth + e.hashes.length * hashWidth

/-- What all commits together are charged. -/
def total : List Pending → Nat
  | [] => 0
  | e :: rest => entrySize e + total rest

/-- The root recorded last. -/
def lastRoot? (t : Tracker) : Option NodeHash := t.entries.getLast?.map Pending.root

/-- Records a commit.  A commit under the root recorded last is ignored;
otherwise the answer tells whether the budget is now exceeded. -/
def put (t : Tracker) (root : NodeHash) (hashes : List NodeHash) : Bool × Tracker :=
  if t.lastRoot? = some root then (false, t)
  else
    let entry : Pending := ⟨root, hashes.eraseDups⟩
    let size := t.size + entrySize entry
    (t.budget < size, { t with entries := t.entries ++ [entry], size })

/-- The commits after the first one under a root; all of them if there is none. -/
def afterRoot (root : NodeHash) (entries : List Pending) : List Pending :=
  match entries.findIdx? fun e => e.root = root with
  | none => entries
  | some index => entries.drop (index + 1)

/-- Drops the oldest commits up to the first one under a root, and counts anew. -/
def removeCommitted (t : Tracker) (root : NodeHash) : Tracker :=
  if t.entries.any fun e => e.root = root then
    let entries := afterRoot root t.entries
    { t with entries, size := total entries }
  else t

def remove (t : Tracker) (hash : NodeHash) : Tracker :=
  let removed := t.entries.countP fun e => e.hashes.contains hash
  { t with
    entries := t.entries.map fun e => { e with hashes := e.hashes.filter fun h => h ≠ hash }
    size := t.size - removed * hashWidth }

/-- Whether a hash is pending. -/
def shouldCommit (t : Tracker) (hash : NodeHash) : Bool :=
  t.entries.any fun e => e.hashes.contains hash

/-- The roots that still have an entry, oldest first. -/
def roots (t : Tracker) : List NodeHash := t.entries.map Pending.root

end Tracker

end TrieStorage
