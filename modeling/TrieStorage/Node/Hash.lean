import TrieStorage.Bytes.Hex
import TrieStorage.Digest.Blake3

/-!
# Node hashes

The address of a trie node: exactly 32 bytes.  The all-zero address stands for
the trie without entries, which is never copied anywhere.
-/

namespace TrieStorage

/-- A 32-byte address. -/
structure NodeHash where
  bytes : Bytes
  length_bytes : bytes.length = 32
  deriving DecidableEq, Repr

/-- Why something is not a node hash. -/
inductive HashError where
  | invalidHex (reason : String)
  | invalidLength (expected actual : Nat)
  deriving DecidableEq, Repr

namespace HashError

def message : HashError → String
  | .invalidHex reason => "invalid hex string: " ++ reason
  | .invalidLength expected actual =>
    "invalid byte length: expected " ++ toString expected ++ ", got " ++ toString actual

end HashError

namespace NodeHash

@[ext] theorem ext {a b : NodeHash} (h : a.bytes = b.bytes) : a = b := by
  cases a; cases b; simp_all

/-- The sentinel of the trie without entries. -/
def emptyTrie : NodeHash := ⟨List.replicate 32 0, by simp⟩

/-- Whether this is the sentinel of the trie without entries. -/
def isEmptyTrie (hash : NodeHash) : Bool := hash = emptyTrie

def ofBytes (bytes : Bytes) : Except HashError NodeHash :=
  if h : bytes.length = 32 then .ok ⟨bytes, h⟩ else .error (.invalidLength 32 bytes.length)

def ofHex (text : String) : Except HashError NodeHash :=
  match Hex.decode text with
  | .ok bytes => ofBytes bytes
  | .error e => .error (.invalidHex e.message)

def toHex (hash : NodeHash) : String := Hex.encode hash.bytes

def shortHex (hash : NodeHash) : String := Hex.encode (hash.bytes.take 4)

/-- The short form under the name of the type. -/
def label (hash : NodeHash) : String := "NodeHash(" ++ hash.shortHex ++ ")"

/-- The order of the bytes. -/
def precedes (a b : NodeHash) : Bool := !decide (b.bytes < a.bytes)

/-- Ascending, each hash once. -/
def sorted (hashes : List NodeHash) : List NodeHash := hashes.eraseDups.mergeSort precedes

end NodeHash

/-- The digest under a domain: tag, colon, data.  Data hashed under different
tags without a colon never meet. -/
def domainDigest (domain : String) (data : Bytes) : NodeHash :=
  ⟨Blake3.digest (Bytes.ofText domain ++ Bytes.ofText ":" ++ data), by simp⟩

/-- The domain of trie nodes. -/
def trieNodeDomain : String := "tsm-trie-node-v1"

end TrieStorage
