import TrieStorage.Proofs.Storage.Verdicts
import TrieStorage.Proofs.Walk.Copies

/-!
# What a walk depends on

A snapshot reads the nodes under its root and puts them into its target, and nothing else about
the vault makes a difference to it.  So it does not matter to the walk what happens to other
keys, which hashes are pending, and which epoch is selected, as long as puts are answered alike
in all epochs.
-/

namespace TrieStorage

namespace Vault

/-! ## The same to a walk -/

/-- Two vaults are the same to a walk under a root: its nodes read the same, and puts are
answered alike. -/
structure SameUnder (root : NodeHash) (v v' : Vault) : Prop where
  scheme : v'.scheme = v.scheme
  lookup : ∀ h, v.trie.Reach root h → v'.lookup h.bytes = v.lookup h.bytes
  verdict : v'.storage.verdict = v.storage.verdict
  uniform : v'.storage.main.store.Uniform

theorem lookup_congr {v v' : Vault} {key : Bytes} (legacy : v'.legacy = v.legacy)
    (get : ∀ id, v'.storage.get id key = v.storage.get id key) :
    v'.lookup key = v.lookup key := by
  rw [lookup_eq, lookup_eq, readOrder, legacy]
  simp only [Storage.peek, get]
  rfl

namespace SameUnder

variable {root : NodeHash} {v₀ v : Vault}

theorem refl (uniform : v.storage.main.store.Uniform) : v.SameUnder root v :=
  ⟨rfl, fun _ _ => rfl, rfl, uniform⟩

theorem readNode (h : v₀.SameUnder root v) {hash : NodeHash} (reach : v₀.trie.Reach root hash) :
    Walk.readNode v hash = Walk.readNode v₀ hash := by
  unfold Walk.readNode
  rw [h.lookup hash reach, h.scheme]

theorem putInto (h : v₀.SameUnder root v) (id : LayerId) (key value : Bytes)
    (lookup : ∀ hash, v₀.trie.Reach root hash →
      (v.putInto id key value).2.lookup hash.bytes = v.lookup hash.bytes) :
    v₀.SameUnder root (v.putInto id key value).2 :=
  ⟨h.scheme, fun hash reach => (lookup hash reach).trans (h.lookup hash reach),
    (v.storage.put_verdict id key value).2.trans h.verdict,
    v.storage.put_uniform h.uniform id key value⟩

/-- A put under a key that is no address under the root. -/
theorem put (h : v₀.SameUnder root v) {key : Bytes}
    (other : ∀ hash, v₀.trie.Reach root hash → hash.bytes ≠ key) (value : Bytes) :
    v₀.SameUnder root (v.put key value).2 := by
  refine h.putInto .main key value fun hash reach => lookup_congr rfl fun id => ?_
  exact (v.storage.get_put .main key value id hash.bytes).resolve_right fun own =>
    other hash reach own.1

/-- A change of the main layer that neither puts nor readers of the addresses under the root
see. -/
theorem main (h : v₀.SameUnder root v) {main : Layer} {disk : Disk}
    (verdict : main.verdict v.storage.refusals = v.storage.main.verdict v.storage.refusals)
    (get : ∀ hash, v₀.trie.Reach root hash →
      main.get v.storage.refusals hash.bytes = v.storage.main.get v.storage.refusals hash.bytes)
    (uniform : main.store.Uniform) (tracker : Tracker) :
    v₀.SameUnder root { v with storage := { v.storage with main, disk }, tracker } := by
  refine ⟨h.scheme, fun hash reach => ?_, (v.storage.verdict_main verdict).trans h.verdict, uniform⟩
  rw [← h.lookup hash reach]
  exact lookup_congr rfl (v.storage.get_main (get hash reach))

theorem remove (h : v₀.SameUnder root v) {hash : NodeHash} (other : ¬ v₀.trie.Reach root hash) :
    v₀.SameUnder root (v.remove hash).2 :=
  h.main (v.storage.main.remove_verdict _ _ _)
    (fun _ reach => v.storage.main.get_remove_of_ne _
      (fun same => other (by rwa [← NodeHash.ext same])) _)
    (Layer.uniform_remove _ h.uniform _ _) _

theorem selectEpoch (h : v₀.SameUnder root v) (epoch : Epoch) :
    v₀.SameUnder root (v.selectEpoch epoch) := by
  have selected := h.uniform.selectEpoch epoch
  refine h.main ?_ (fun hash _ => ?_) selected.1 v.tracker
  · unfold Layer.verdict
    rw [selected.2]
  · unfold Layer.get
    rw [Store.get_selectEpoch]

theorem tracker (h : v₀.SameUnder root v) (tracker : Tracker) :
    v₀.SameUnder root { v with tracker } := ⟨h.scheme, h.lookup, h.verdict, h.uniform⟩

end SameUnder

end Vault

/-! ## What a walk does -/

/-- What a step of a walk does to the world outside. -/
inductive Deed where
  /-- A stored form is put under its address. -/
  | write (hash : NodeHash) (encoded : Bytes)
  /-- A leaf is put into the sink. -/
  | stream (leaf : Leaf)
  deriving DecidableEq, Repr

namespace Walk

/-- What the next step of a walk does. -/
def deed? (closed : Bool) (w : Walk) (v : Vault) : Option Deed :=
  if closed then none
  else
    match w.phase with
    | .visiting _ (hash :: _) =>
      if skips v w.request.kind hash then none
      else (readNode v hash).toOption.map fun p => .write hash p.1
    | .sending _ leaf _ => some (.stream leaf)
    | _ => none

variable {w : Walk} {v v₀ : Vault} {target : LayerId} {stack : List NodeHash} {root : NodeHash}

/-- A visit puts what its deed tells, and changes the storage in no other way. -/
theorem storage_of_deed (closed : Bool) (phase : w.phase = .visiting target stack) :
    (w.visit closed v target stack).2.storage =
      match w.deed? closed v with
      | some (.write hash encoded) => (v.storage.put target hash.bytes encoded).2
      | _ => v.storage := by
  have h := visited closed w v target stack
  generalize (w.visit closed v target stack).1 = w', (w.visit closed v target stack).2 = v' at h
  unfold deed?
  rw [phase]
  cases h with
  | through => cases closed <;> rfl
  | cancelled shut => rw [shut]; rfl
  | passed notShut skipped => simp [notShut, skipped]
  | unread notShut due read => simp [notShut, due, read, Except.toOption]
  | unwritten notShut due read written =>
    simp only [notShut, due, read, Except.toOption, Bool.false_eq_true, if_false, Option.map_some]
    exact (congrArg (fun r => r.2.storage) written).symm
  | copied notShut due read written =>
    simp only [notShut, due, read, Except.toOption, Bool.false_eq_true, if_false, Option.map_some,
      storage_noteCopied]
    exact (congrArg (fun r => r.2.storage) written).symm

/-! ## Walks under a root -/

/-- A snapshot that has begun and has only hashes under a root left to visit. -/
structure Under (t : Trie) (root : NodeHash) (w : Walk) : Prop where
  kind : w.request.kind = .snapshot
  begun : w.phase ≠ .starting
  stack : ∀ target stack, AtStack target stack w.phase → ∀ hash ∈ stack, t.Reach root hash

/-- The walk after copying a node, in terms of what puts are answered. -/
theorem fst_copy (w : Walk) (v : Vault) (target : LayerId) (hash : NodeHash)
    (stack : List NodeHash) : (w.copy v target hash stack).1 =
      match readNode v hash with
      | .error e => w.fail e
      | .ok (encoded, node) =>
        match v.storage.verdict target hash.bytes with
        | .error e => w.fail (.store e)
        | .ok () =>
          { request := w.request.countNode encoded.length node.entry?.isSome
            phase := afterCopy w.request target node stack } := by
  unfold copy
  rcases readNode v hash with e | ⟨encoded, node⟩
  · rfl
  · have answer : (v.putInto target hash.bytes encoded).1 = v.storage.verdict target hash.bytes :=
      (v.storage.put_verdict target hash.bytes encoded).1
    rw [← answer]
    dsimp only
    rcases v.putInto target hash.bytes encoded with ⟨e | ⟨⟩, v'⟩ <;> rfl

/-- A visit does to the walk what it would do in the vault it began with. -/
theorem fst_visit_of_same (under : w.Under v₀.trie root) (same : v₀.SameUnder root v)
    (phase : w.phase = .visiting target stack) :
    (w.visit false v target stack).1 = (w.visit false v₀ target stack).1 := by
  cases stack with
  | nil => rfl
  | cons hash rest =>
    have reach := under.stack _ _ (.of_visiting phase) hash List.mem_cons_self
    simp only [visit, Bool.false_eq_true, if_false, skips_snapshot under.kind, fst_copy,
      same.readNode reach, same.verdict]

/-- It leaves the vault the same to the walk. -/
theorem same_visit (same : v₀.SameUnder root v) (phase : w.phase = .visiting target stack) :
    v₀.SameUnder root (w.visit false v target stack).2 := by
  have alike := alike_visit false w v target stack
  have storage := storage_of_deed (v := v) false phase
  have verdict : (w.visit false v target stack).2.storage.verdict = v.storage.verdict ∧
      (w.visit false v target stack).2.storage.main.store.Uniform := by
    rw [storage]
    split
    · exact ⟨(v.storage.put_verdict ..).2, v.storage.put_uniform same.uniform ..⟩
    · exact ⟨rfl, same.uniform⟩
  exact ⟨alike.scheme.trans same.scheme,
    fun hash reach => (alike.lookup hash.bytes).trans (same.lookup hash reach),
    verdict.1.trans same.verdict, verdict.2⟩

namespace Under

variable (under : w.Under v₀.trie root)

include under

theorem visit (phase : w.phase = .visiting target stack) :
    (w.visit false v₀ target stack).1.Under v₀.trie root := by
  have stub := stub_visit false w v₀ target stack
  have h := visited false w v₀ target stack
  generalize (w.visit false v₀ target stack).1 = w', (w.visit false v₀ target stack).2 = v' at h stub
  have before := under.stack _ _ (.of_visiting phase)
  refine ⟨?_, ?_, fun target' stack' here => ?_⟩
  · rw [← Request.kind_stub, stub, Request.kind_stub]
    exact under.kind
  · cases h with
    | copied => exact (atStack_afterCopy ..).going.1
    | _ => exact nofun
  · cases h with
    | passed notShut skipped =>
      rw [skips_snapshot under.kind] at skipped
      cases skipped
    | @copied hash rest _ node _ _ _ read _ =>
      obtain ⟨-, rfl⟩ := here.unique (atStack_afterCopy ..)
      intro x mem
      rcases List.mem_append.1 mem with child | later
      · exact (before hash List.mem_cons_self).tail ⟨_, Vault.trie_eq_some.2 read, child⟩
      · exact before x (List.mem_cons_of_mem hash later)
    | _ => cases here

theorem send {leaf : Leaf} (phase : w.phase = .sending target leaf stack) :
    (w.send false target leaf stack).Under v₀.trie root :=
  ⟨under.kind, nofun, fun _ _ here => by
    obtain ⟨-, rfl⟩ := here.unique .visiting
    exact under.stack _ _ (.of_sending phase)⟩

theorem release (outcome : Outcome) : (w.inPhase (.released outcome)).Under v₀.trie root :=
  ⟨under.kind, nofun, fun _ _ here => by cases here⟩

theorem reader {change : Request → Request} (hc : ReaderChange change) :
    Walk.Under v₀.trie root { w with request := change w.request } := by
  refine ⟨?_, under.begun, under.stack⟩
  rw [← Request.kind_stub, hc.stub, Request.kind_stub]
  exact under.kind

/-- In all vaults that are the same to it, the walk does the same next. -/
theorem deed?_eq (same : v₀.SameUnder root v) : w.deed? false v = w.deed? false v₀ := by
  unfold deed?
  rw [if_neg Bool.false_ne_true, if_neg Bool.false_ne_true]
  split
  · next hash rest phase =>
    have reach := under.stack _ _ (.of_visiting phase) hash List.mem_cons_self
    rw [skips_snapshot under.kind, skips_snapshot under.kind, same.readNode reach]
  · rfl
  · rfl

end Under

end Walk

end TrieStorage
