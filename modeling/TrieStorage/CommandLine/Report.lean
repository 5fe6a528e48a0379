import TrieStorage.Manager.Error
import TrieStorage.Node.Hash

/-!
# Reports

What goes to standard error when a command fails: what was being attempted, and
under it the causes from the nearest to the farthest, numbered if there are
several.  The wording of the operating system, and that of a reader of settings
about a bad document, are not this library's; `stableText` is what comes before
them.
-/

namespace TrieStorage

namespace CommandLine

/-- What was being attempted when a command failed, and why it failed. -/
structure Failure where
  attempt : String
  causes : List String := []
  deriving DecidableEq, Repr

namespace Failure

def numbered (causes : List String) : List String :=
  causes.zipIdx.map fun cause => "    " ++ toString cause.2 ++ ": " ++ cause.1 ++ "\n"

def causeText : List String → String
  | [] => ""
  | [cause] => "\nCaused by:\n    " ++ cause ++ "\n"
  | causes => "\nCaused by:\n" ++ String.join (numbered causes)

def text (f : Failure) : String := "Error: " ++ f.attempt ++ "\n" ++ causeText f.causes

/-- A text up to and including the first occurrence of a mark. -/
def cutAfter (mark : List Char) : List Char → List Char
  | [] => []
  | c :: rest => if mark.isPrefixOf (c :: rest) then mark else c :: cutAfter mark rest

/-- The report without wording from elsewhere. -/
def stableText (f : Failure) : String :=
  let cut := cutAfter ManagerError.configParseLead.toList f.text.toList
  String.ofList (cutAfter StoreError.ioLead.toList cut)

end Failure

end CommandLine

/-- What stands for the operating system's own wording. -/
def systemWording : String := "the operating system refused"

namespace StoreError

/-- The error and what caused it. -/
def chain : StoreError → List String
  | .io => [ioLead ++ ": " ++ systemWording, systemWording]
  | e => [e.message]

end StoreError

namespace ManagerError

/-- The error and what caused it. -/
def chain : ManagerError → List String
  | .io => StoreError.io.chain
  | .store cause => cause.chain
  | .closeFailed cause => (ManagerError.closeFailed cause).message :: cause.chain
  | e => [e.message]

end ManagerError

end TrieStorage
