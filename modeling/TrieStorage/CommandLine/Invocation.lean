import TrieStorage.Store.Partitioned

/-!
# Invocations

What the command line can be asked to do.
-/

namespace TrieStorage

/-- How results are printed. -/
inductive OutputFormat where
  | text
  | json
  deriving DecidableEq, Repr

/-- Where a manager finds its stores and settings. -/
structure StorageOptions where
  dataDir : String := "."
  config : Option String := none
  /-- The epoch to be confirmed at the start. -/
  epoch : Option Epoch := none
  deriving DecidableEq, Repr

/-- A command with its own options. -/
inductive Command where
  /-- Lists the generations in a directory. -/
  | generations (dir : String)
  /-- Reads a key. -/
  | get (key : String) (options : StorageOptions)
  /-- Copies the trie under a root. -/
  | snapshot (root : String) (options : StorageOptions)
  /-- Prints the settings. -/
  | config (path : Option String)
  deriving DecidableEq, Repr

/-- A command with the options that all commands have. -/
structure Invocation where
  command : Command
  format : OutputFormat := .text
  verbose : Bool := false
  deriving DecidableEq, Repr

end TrieStorage
