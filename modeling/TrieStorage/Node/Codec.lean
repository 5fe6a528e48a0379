import TrieStorage.Bytes.Layout
import TrieStorage.Node.Basic

/-!
# The stored form of nodes

Tag 0 is a branch: a 64-bit count and the raw hashes.  Tag 1 is an extension:
a byte string and a raw hash.  Tag 2 is a leaf: two byte strings.
-/

namespace TrieStorage

/-- Why bytes are not the stored form of a node. -/
inductive CodecError where
  | emptyEncoding
  | serialization (reason : String)
  deriving DecidableEq, Repr

namespace CodecError

def message : CodecError → String
  | .emptyEncoding => "empty node encoding"
  | .serialization reason => "serialization error: " ++ reason

end CodecError

namespace Node

open Layout

def encode : Node → Bytes
  | .branch children =>
    writeTag 0 ++ LittleEndian.encode 8 children.length ++ children.flatMap NodeHash.bytes
  | .extension segment child => writeTag 1 ++ writeBytes segment ++ child.bytes
  | .leaf entry => writeTag 2 ++ writeBytes entry.key ++ writeBytes entry.value

def readHash : Reader NodeHash := fun bytes =>
  if h : 32 ≤ bytes.length then
    .ok (⟨bytes.take 32, by simp [h]⟩, bytes.drop 32)
  else .error .unexpectedEnd

def readHashes : Nat → Reader (List NodeHash)
  | 0, bytes => .ok ([], bytes)
  | count + 1, bytes =>
    match readHash bytes with
    | .error e => .error e
    | .ok (hash, rest) =>
      match readHashes count rest with
      | .error e => .error e
      | .ok (hashes, rest) => .ok (hash :: hashes, rest)

def readBranch : Reader Node := fun bytes => do
  let (count, rest) ← readNumber 8 bytes
  let (children, rest) ← readHashes count rest
  return (.branch children, rest)

def readExtension : Reader Node := fun bytes => do
  let (segment, rest) ← readBytes bytes
  let (child, rest) ← readHash rest
  return (.extension segment child, rest)

def readLeaf : Reader Node := fun bytes => do
  let (key, rest) ← readBytes bytes
  let (value, rest) ← readBytes rest
  return (.leaf ⟨key, value⟩, rest)

/-- A node at the front of a byte string. -/
def read : Reader Node := fun bytes => do
  let (tag, rest) ← readNumber 4 bytes
  match tag with
  | 0 => readBranch rest
  | 1 => readExtension rest
  | 2 => readLeaf rest
  | _ => .error (.unknownTag tag 3)

/-- Reads the stored form of a node; bytes after it are ignored. -/
def decode (bytes : Bytes) : Except CodecError Node :=
  if bytes.isEmpty then .error .emptyEncoding
  else
    match read bytes with
    | .ok (node, _) => .ok node
    | .error e => .error (.serialization e.message)

end Node

/-- How nodes are addressed and read: the digest of their stored form, and
the reader of that form. -/
structure Scheme where
  address : Bytes → NodeHash
  decode : Bytes → Except CodecError Node

namespace Scheme

/-- The scheme in use: the digest under the domain of trie nodes, and the
binary layout. -/
def standard : Scheme := ⟨domainDigest trieNodeDomain, Node.decode⟩

end Scheme

end TrieStorage
