import TrieStorage.Manager.Statistics
import TrieStorage.Node.Basic

/-!
# Requests and leaf sinks

A request asks for the trie under a root to be copied and may bring a sink for
its leaves.  A sink is a bounded buffer between the walk that fills it and a
reader.  Either side can leave: a walk that finds the reader gone goes on
without a sink, and a reader that finds the buffer empty and the walk detached
knows that no more leaves will follow.
-/

namespace TrieStorage

/-- What is copied: everything below the root, or only what is pending. -/
inductive RequestKind where
  | snapshot
  | checkpoint
  deriving DecidableEq, Repr

namespace RequestKind

def text : RequestKind → String
  | .snapshot => "snapshot"
  | .checkpoint => "checkpoint"

end RequestKind

/-- What the receiving side of a sink does. -/
inductive LeafReader where
  /-- It takes every leaf as soon as there is one. -/
  | collecting
  /-- It takes a leaf when it is told to. -/
  | waiting
  /-- It has gone; nobody will take a leaf any more. -/
  | gone
  deriving DecidableEq, Repr

/-- A bounded buffer of leaves. -/
structure LeafSink where
  capacity : Nat
  reader : LeafReader
  /-- Whether leaves may still be put in. -/
  attached : Bool := true
  /-- Leaves that no reader has taken yet, oldest first. -/
  buffer : List Leaf := []
  /-- Leaves taken, oldest first. -/
  taken : List Leaf := []
  deriving DecidableEq, Repr

namespace LeafSink

/-- Whether a walk that wants to put in a leaf has to wait. -/
def blocks (sink : LeafSink) : Bool :=
  sink.reader = .waiting && decide (sink.capacity ≤ sink.buffer.length)

/-- Puts in a leaf; with the reader gone, the sink is detached instead. -/
def offer (sink : LeafSink) (leaf : Leaf) : LeafSink :=
  match sink.reader with
  | .collecting => { sink with taken := sink.taken ++ [leaf] }
  | .waiting => { sink with buffer := sink.buffer ++ [leaf] }
  | .gone => { sink with attached := false }

/-- No more leaves will follow. -/
def detach (sink : LeafSink) : LeafSink := { sink with attached := false }

/-- The reader leaves; what is still buffered is lost. -/
def dropReader (sink : LeafSink) : LeafSink := { sink with reader := .gone, buffer := [] }

/-- The reader takes the oldest leaf, if there is one. -/
def take (sink : LeafSink) : Option Leaf × LeafSink :=
  match sink.buffer with
  | [] => (none, sink)
  | leaf :: rest => (some leaf, { sink with buffer := rest, taken := sink.taken ++ [leaf] })

/-- Whether the reader can tell that no more leaves will follow. -/
def exhausted (sink : LeafSink) : Bool := sink.buffer.isEmpty && !sink.attached

end LeafSink

/-- The number of a request, in the order of submission. -/
abbrev RequestId := Nat

/-- A request to copy a trie. -/
structure Request where
  id : RequestId
  kind : RequestKind
  root : NodeHash
  sink : Option LeafSink := none
  stats : Statistics := {}
  deriving DecidableEq, Repr

namespace Request

/-- The request after a change to its sink. -/
def onSink (r : Request) (change : LeafSink → LeafSink) : Request :=
  { r with sink := r.sink.map change }

/-- Whether the leaves of a walk are still wanted. -/
def streams (r : Request) : Bool := r.sink.any LeafSink.attached

/-- Ends the request: no more leaves follow, and its statistics are told. -/
def finish (r : Request) : Request :=
  { r.onSink LeafSink.detach with stats := r.stats.finish }

/-- The request after a node of so many bytes has been copied. -/
def countNode (r : Request) (bytes : Nat) (isLeaf : Bool) : Request :=
  let stats := (r.stats.addSize (UInt64.ofNat bytes)).addNode
  { r with stats := if isLeaf then stats.addLeaf else stats }

/-- The leaves that the reader has got. -/
def received (r : Request) : List Leaf := (r.sink.map LeafSink.taken).getD []

end Request

end TrieStorage
