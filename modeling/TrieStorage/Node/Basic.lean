import TrieStorage.Node.Hash

/-!
# Trie nodes

Only what a walk needs: where a node points, and the entry that a leaf holds.
-/

namespace TrieStorage

/-- The entry at a leaf. -/
structure Leaf where
  key : Bytes
  value : Bytes
  deriving DecidableEq, Repr

/-- A decoded trie node. -/
inductive Node where
  /-- An inner node. -/
  | branch (children : List NodeHash)
  /-- A shared key segment above a single node. -/
  | extension (segment : Bytes) (child : NodeHash)
  /-- An entry. -/
  | leaf (entry : Leaf)
  deriving DecidableEq, Repr

namespace Node

/-- The hashes directly below a node, left to right. -/
def children : Node → List NodeHash
  | .branch children => children
  | .extension _ child => [child]
  | .leaf _ => []

/-- The entry of a leaf. -/
def entry? : Node → Option Leaf
  | .leaf entry => some entry
  | _ => none

end Node

end TrieStorage
