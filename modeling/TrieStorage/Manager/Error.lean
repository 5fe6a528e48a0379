import TrieStorage.Config.Basic
import TrieStorage.Node.Codec

/-!
# Failures of the manager

Failures of a store or of the node layout pass through with their own wording.
-/

namespace TrieStorage

/-- Something the manager cannot be built without. -/
inductive Dependency where
  | legacyDb
  | mainStorer
  | checkpointsStorer
  | marshaller
  | hasher
  | checkpointHashesHolder
  | epochNotifier
  deriving DecidableEq, Repr

namespace Dependency

def name : Dependency → String
  | .legacyDb => "legacy db"
  | .mainStorer => "main storer"
  | .checkpointsStorer => "checkpoints storer"
  | .marshaller => "marshaller"
  | .hasher => "hasher"
  | .checkpointHashesHolder => "checkpoint hashes holder"
  | .epochNotifier => "epoch notifier"

end Dependency

/-- Why an operation of the manager failed. -/
inductive ManagerError where
  | missingDependency (part : Dependency)
  | invalidConfig (reason : String)
  | configParse (reason : String)
  | keyNotFound
  | missingNode (hash : NodeHash)
  | nodeHashMismatch (expected computed : NodeHash)
  | timedOutWaitingToStart
  | contextClosing
  | closeFailed (cause : StoreError)
  | store (cause : StoreError)
  | codec (cause : CodecError)
  | io
  deriving DecidableEq, Repr

namespace ManagerError

/-- The lead of every report about settings that cannot be read. -/
def configParseLead : String := "config parse error"

def message : ManagerError → String
  | .missingDependency part => "missing dependency: " ++ part.name
  | .invalidConfig reason => "invalid configuration: " ++ reason
  | .configParse reason => configParseLead ++ ": " ++ reason
  | .keyNotFound => "key not found"
  | .missingNode hash => "trie node " ++ hash.toHex ++ " not found"
  | .nodeHashMismatch expected computed =>
    "node hash mismatch: stored under " ++ expected.toHex ++ ", hashes to " ++ computed.toHex
  | .timedOutWaitingToStart => "timed out waiting to start the operation"
  | .contextClosing => "context closing"
  | .closeFailed cause => "trie storage manager close failed: " ++ cause.message
  | .store cause => cause.message
  | .codec cause => cause.message
  | .io => StoreError.ioLead

end ManagerError

namespace Config

/-- Whether the settings can be used. -/
def validate (c : Config) : Except ManagerError Unit :=
  match c.complaint? with
  | some reason => .error (.invalidConfig reason)
  | none => .ok ()

end Config

end TrieStorage
