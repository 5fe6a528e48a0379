import Mathlib.Algebra.Order.Group.Nat
import Mathlib.Algebra.Ring.Nat
import TrieStorage.Proofs.Walk.Solo
import TrieStorage.Proofs.Walk.Trie

/-!
# Copying hash after hash

What a walk comes to once it is known which hashes it visits: their nodes are read
and put one after the other, up to the first that cannot be read or put.  What has
been copied tells the leaves to be sent and the statistics to be added.
-/

namespace TrieStorage

/-- A node that has been copied, with its stored form. -/
structure Copy where
  hash : NodeHash
  encoded : Bytes
  node : Node
  deriving DecidableEq, Repr

namespace Copy

/-- The entries of the leaves among some copies. -/
def leaves (copies : List Copy) : List Leaf := copies.filterMap fun c => c.node.entry?

theorem leaves_concat (copies : List Copy) (c : Copy) :
    leaves (copies ++ [c]) = leaves copies ++ c.node.entry?.toList := by
  cases entry : c.node.entry? <;> simp [leaves, entry]

/-- The bytes of some copies, all together. -/
def size (copies : List Copy) : Nat := (copies.map fun c => c.encoded.length).sum

end Copy

/-- The statistics once some copies have been counted. -/
def Statistics.plus (s : Statistics) (copies : List Copy) : Statistics :=
  { s with
    size := s.size + UInt64.ofNat (Copy.size copies)
    nodes := s.nodes + UInt64.ofNat copies.length
    leaves := s.leaves + UInt64.ofNat (Copy.leaves copies).length }

theorem Statistics.plus_nil (s : Statistics) : s.plus [] = s := by
  simp [plus, Copy.size, Copy.leaves]

/-- Copies are counted one by one. -/
theorem Request.stats_countNode {r : Request} {s : Statistics} {copies : List Copy}
    (h : r.stats = s.plus copies) (c : Copy) :
    (r.countNode c.encoded.length c.node.entry?.isSome).stats = s.plus (copies ++ [c]) := by
  have size : Copy.size (copies ++ [c]) = Copy.size copies + c.encoded.length := by
    simp [Copy.size]
  unfold countNode
  cases entry : c.node.entry? <;>
    simp [h, Statistics.plus, Statistics.addSize, Statistics.addNode, Statistics.addLeaf, size,
      Copy.leaves_concat, entry, UInt64.add_assoc]

/-- What copying some hashes comes to. -/
structure Transfer where
  copies : List Copy
  /-- Why no more was copied, if something stopped it. -/
  answer : Except ManagerError Unit
  vault : Vault

namespace Vault

/-- Copies the nodes at some hashes into a layer one after the other, up to the first
that cannot be read or put. -/
def transfer (kind : RequestKind) (target : LayerId) (v : Vault) : List NodeHash → Transfer
  | [] => ⟨[], .ok (), v⟩
  | hash :: rest =>
    match Walk.readNode v hash with
    | .error e => ⟨[], .error e, v⟩
    | .ok (encoded, node) =>
      match v.putInto target hash.bytes encoded with
      | (.error e, v) => ⟨[], .error (.store e), v⟩
      | (.ok (), v) =>
        let later := transfer kind target (Walk.noteCopied v kind hash) rest
        { later with copies := ⟨hash, encoded, node⟩ :: later.copies }

section

variable {kind : RequestKind} {target : LayerId} {v v' : Vault} {hash : NodeHash}
  {rest front : List NodeHash} {encoded : Bytes} {node : Node}

theorem transfer_unread {e : ManagerError} (read : Walk.readNode v hash = .error e) :
    v.transfer kind target (hash :: rest) = ⟨[], .error e, v⟩ := by
  simp only [transfer, read]

theorem transfer_unwritten {e : StoreError} (read : Walk.readNode v hash = .ok (encoded, node))
    (written : v.putInto target hash.bytes encoded = (.error e, v')) :
    v.transfer kind target (hash :: rest) = ⟨[], .error (.store e), v'⟩ := by
  simp only [transfer, read, written]

theorem transfer_copied (read : Walk.readNode v hash = .ok (encoded, node))
    (written : v.putInto target hash.bytes encoded = (.ok (), v')) :
    v.transfer kind target (hash :: rest) =
      { (Walk.noteCopied v' kind hash).transfer kind target rest with
        copies := ⟨hash, encoded, node⟩ ::
          ((Walk.noteCopied v' kind hash).transfer kind target rest).copies } := by
  simp only [transfer, read, written]

/-- What nothing stopped goes on with the hashes behind. -/
theorem transfer_append_of_ok (h : (v.transfer kind target front).answer = .ok ())
    (back : List NodeHash) :
    v.transfer kind target (front ++ back) =
      { (v.transfer kind target front).vault.transfer kind target back with
        copies := (v.transfer kind target front).copies ++
          ((v.transfer kind target front).vault.transfer kind target back).copies } := by
  induction front generalizing v with
  | nil => rfl
  | cons hash front ih =>
    rcases read : Walk.readNode v hash with e | ⟨encoded, node⟩
    · rw [transfer_unread read] at h
      cases h
    · rcases written : v.putInto target hash.bytes encoded with ⟨e | ⟨⟩, v'⟩
      · rw [transfer_unwritten read written] at h
        cases h
      · rw [transfer_copied read written] at h
        rw [List.cons_append, transfer_copied read written, transfer_copied read written, ih h]
        rfl

section

variable (ok : (v.transfer kind target front).answer = .ok ())

include ok

theorem transfer_concat_unread {e : ManagerError}
    (read : Walk.readNode (v.transfer kind target front).vault hash = .error e) :
    v.transfer kind target (front ++ [hash]) =
      { v.transfer kind target front with answer := .error e } := by
  rw [transfer_append_of_ok ok, transfer_unread read, List.append_nil]

theorem transfer_concat_unwritten {e : StoreError}
    (read : Walk.readNode (v.transfer kind target front).vault hash = .ok (encoded, node))
    (written : (v.transfer kind target front).vault.putInto target hash.bytes encoded =
      (.error e, v')) :
    v.transfer kind target (front ++ [hash]) =
      { v.transfer kind target front with answer := .error (.store e), vault := v' } := by
  rw [transfer_append_of_ok ok, transfer_unwritten read written, List.append_nil]

theorem transfer_concat_copied
    (read : Walk.readNode (v.transfer kind target front).vault hash = .ok (encoded, node))
    (written : (v.transfer kind target front).vault.putInto target hash.bytes encoded =
      (.ok (), v')) :
    v.transfer kind target (front ++ [hash]) =
      ⟨(v.transfer kind target front).copies ++ [⟨hash, encoded, node⟩], .ok (),
        Walk.noteCopied v' kind hash⟩ := by
  rw [transfer_append_of_ok ok, transfer_copied read written]
  rfl

end

/-- What has been stopped does not come to the hashes behind. -/
theorem transfer_append_of_error {e : ManagerError}
    (h : (v.transfer kind target front).answer = .error e) (back : List NodeHash) :
    v.transfer kind target (front ++ back) = v.transfer kind target front := by
  induction front generalizing v with
  | nil => cases h
  | cons hash front ih =>
    rcases read : Walk.readNode v hash with e | ⟨encoded, node⟩
    · rw [List.cons_append, transfer_unread read, transfer_unread read]
    · rcases written : v.putInto target hash.bytes encoded with ⟨e | ⟨⟩, v'⟩
      · rw [List.cons_append, transfer_unwritten read written, transfer_unwritten read written]
      · rw [transfer_copied read written] at h
        rw [List.cons_append, transfer_copied read written, transfer_copied read written, ih h]

/-- If nothing stopped it, every hash has been copied. -/
theorem hash_transfer {hashes : List NodeHash} (h : (v.transfer kind target hashes).answer = .ok ()) :
    (v.transfer kind target hashes).copies.map Copy.hash = hashes := by
  induction hashes generalizing v with
  | nil => rfl
  | cons hash rest ih =>
    rcases read : Walk.readNode v hash with e | ⟨encoded, node⟩
    · rw [transfer_unread read] at h
      cases h
    · rcases written : v.putInto target hash.bytes encoded with ⟨e | ⟨⟩, v'⟩
      · rw [transfer_unwritten read written] at h
        cases h
      · rw [transfer_copied read written] at h ⊢
        exact congrArg (hash :: ·) (ih h)

/-- Copying a node does not change what can be read. -/
theorem readNode_noteCopied (read : Walk.readNode v hash = .ok (encoded, node))
    (written : v.putInto target hash.bytes encoded = (.ok (), v')) (h : NodeHash) :
    Walk.readNode (Walk.noteCopied v' kind hash) h = Walk.readNode v h := by
  have scheme : v'.scheme = v.scheme := by rw [eq_of_putInto written]
  unfold Walk.readNode
  rw [Walk.lookup_noteCopied, Walk.scheme_noteCopied, scheme,
    lookup_of_putInto (Walk.lookup_of_readNode read) written]

theorem trie_noteCopied (read : Walk.readNode v hash = .ok (encoded, node))
    (written : v.putInto target hash.bytes encoded = (.ok (), v')) :
    (Walk.noteCopied v' kind hash).trie = v.trie := by
  funext h
  unfold trie
  rw [readNode_noteCopied read written]

/-- Copies are of the nodes that could be read in the beginning. -/
theorem trie_of_mem_transfer {hashes : List NodeHash} {c : Copy}
    (mem : c ∈ (v.transfer kind target hashes).copies) :
    v.trie c.hash = some (c.encoded, c.node) := by
  induction hashes generalizing v with
  | nil => cases mem
  | cons hash rest ih =>
    rcases read : Walk.readNode v hash with e | ⟨encoded, node⟩
    · rw [transfer_unread read] at mem
      cases mem
    · rcases written : v.putInto target hash.bytes encoded with ⟨e | ⟨⟩, v'⟩
      · rw [transfer_unwritten read written] at mem
        cases mem
      · rw [transfer_copied read written] at mem
        rcases List.mem_cons.1 mem with rfl | later
        · exact trie_eq_some.2 read
        · rw [← trie_noteCopied read written]
          exact ih later

/-- Nothing stops copying where every node can be read and every put is taken. -/
theorem answer_transfer {hashes : List NodeHash} (readable : ∀ h ∈ hashes, (v.trie h).isSome = true)
    (accepts : v.Accepts target) : (v.transfer kind target hashes).answer = .ok () := by
  induction hashes generalizing v with
  | nil => rfl
  | cons hash rest ih =>
    obtain ⟨⟨encoded, node⟩, found⟩ := Option.isSome_iff_exists.1 (readable hash List.mem_cons_self)
    have read := trie_eq_some.1 found
    obtain ⟨v', written, still⟩ := accepts.putInto hash.bytes encoded
    rw [transfer_copied read written]
    refine ih (fun h mem => ?_) ((Walk.accepts_noteCopied ..).2 still)
    rw [trie_noteCopied read written]
    exact readable h (List.mem_cons_of_mem hash mem)

/-- What stops copying at a hash, once some hashes have been copied: its node cannot be
read, or is not taken. -/
inductive Stops (kind : RequestKind) (target : LayerId) (v : Vault) (copied : List NodeHash)
    (hash : NodeHash) : ManagerError → Prop where
  | unread {e : ManagerError} (read : Walk.readNode v hash = .error e) :
      Stops kind target v copied hash e
  | unwritten {encoded : Bytes} {node : Node} {e : StoreError}
      (read : Walk.readNode v hash = .ok (encoded, node))
      (refused : ((v.transfer kind target copied).vault.putInto target hash.bytes encoded).1 =
        .error e) : Stops kind target v copied hash (.store e)

/-- Copying stops at the hash behind those that have been copied. -/
theorem stops_of_transfer {hashes : List NodeHash} {e : ManagerError}
    (h : (v.transfer kind target hashes).answer = .error e) :
    ∃ hash rest, hashes = (v.transfer kind target hashes).copies.map Copy.hash ++ hash :: rest ∧
      Stops kind target v ((v.transfer kind target hashes).copies.map Copy.hash) hash e := by
  induction hashes generalizing v with
  | nil => cases h
  | cons hash rest ih =>
    rcases read : Walk.readNode v hash with e' | ⟨encoded, node⟩
    · rw [transfer_unread read] at h ⊢
      cases h
      exact ⟨hash, rest, rfl, .unread read⟩
    · rcases written : v.putInto target hash.bytes encoded with ⟨e' | ⟨⟩, v'⟩
      · rw [transfer_unwritten read written] at h ⊢
        cases h
        exact ⟨hash, rest, rfl, .unwritten read (congrArg Prod.fst written)⟩
      · rw [transfer_copied read written] at h ⊢
        obtain ⟨hash', rest', same, stops⟩ := ih h
        refine ⟨hash', rest', congrArg (hash :: ·) same, ?_⟩
        cases stops with
        | unread read' =>
          rw [readNode_noteCopied read written] at read'
          exact .unread read'
        | unwritten read' refused =>
          rw [readNode_noteCopied read written] at read'
          refine .unwritten read' ?_
          rw [List.map_cons, transfer_copied read written]
          exact refused

end

end Vault

end TrieStorage
