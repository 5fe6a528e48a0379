/-!
# Statistics of copies

Counters that a request reports into.  Bytes, nodes and leaves are counted
modulo 2^64.
-/

namespace TrieStorage

/-- What has been copied so far, and how many requests run and have ended. -/
structure Statistics where
  size : UInt64 := 0
  nodes : UInt64 := 0
  leaves : UInt64 := 0
  inProgress : Nat := 0
  finished : Nat := 0
  deriving DecidableEq, Repr

namespace Statistics

/-- A request has been announced. -/
def start (s : Statistics) : Statistics := { s with inProgress := s.inProgress + 1 }

/-- So many bytes have been copied. -/
def addSize (s : Statistics) (bytes : UInt64) : Statistics := { s with size := s.size + bytes }

def addNode (s : Statistics) : Statistics := { s with nodes := s.nodes + 1 }

def addLeaf (s : Statistics) : Statistics := { s with leaves := s.leaves + 1 }

/-- A request has ended; one that was never announced ends as well. -/
def finish (s : Statistics) : Statistics :=
  { s with finished := s.finished + 1, inProgress := s.inProgress - 1 }

/-- Whether nobody has to wait for a request to end. -/
def idle (s : Statistics) : Bool := s.inProgress = 0

end Statistics

end TrieStorage
