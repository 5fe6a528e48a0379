/-!
# Failures of stores

One type for every kind of store.  A failure of the operating system is not
told apart further: its wording is not this library's.
-/

namespace TrieStorage

/-- Why a store refused a call or could not be opened. -/
inductive StoreError where
  /-- The store has been closed. -/
  | closed
  /-- A value could not be written to or read from its stored form. -/
  | serialization (reason : String)
  /-- The operating system reported a failure. -/
  | io
  /-- A complete log record, the bytes after which start at `offset`, is not readable. -/
  | corruptRecord (offset : Nat) (reason : String)
  /-- The name of a generation directory is not a number. -/
  | invalidGenerationName (name : String)
  /-- Something other than a directory stands where generations are looked for. -/
  | notADirectory (path : String)
  deriving DecidableEq, Repr

namespace StoreError

/-- The lead of every report about the operating system. -/
def ioLead : String := "I/O error"

def message : StoreError → String
  | .closed => "store is closed"
  | .serialization reason => "serialization error: " ++ reason
  | .io => ioLead
  | .corruptRecord offset reason =>
    "corrupt record at offset " ++ toString offset ++ ": " ++ reason
  | .invalidGenerationName name => "invalid generation directory name: " ++ name
  | .notADirectory path => "not a directory: " ++ path

end StoreError

end TrieStorage
