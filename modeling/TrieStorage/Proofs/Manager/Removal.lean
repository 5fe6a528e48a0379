import TrieStorage.Proofs.Manager.Runs
import TrieStorage.Proofs.Manager.Tracker
import TrieStorage.Proofs.Storage.Closing
import TrieStorage.Proofs.Store.Removals

/-!
# Removals that fail

A manager that is told to remove a hash stops tracking it, whether or not the main store can remove
it: it is not asked first, and nothing is taken back.  Readers find the same as before, unless the
main store has partitions that can be read but not written, and has lost the hash in older ones.
-/

namespace TrieStorage

/-- What a reader takes from an answer: a failure and an empty value count as nothing. -/
def visible : Except StoreError (Option Bytes) → Option Bytes
  | .ok (some value) => if value.isEmpty then none else some value
  | .ok none => none
  | .error _ => none

/-- A layer that fails to remove a key answers as before. -/
theorem Layer.get_remove_of_error {layer : Layer} {refusals : Refusals} {disk : Disk}
    {key : Bytes} {e : StoreError} (failed : (layer.remove refusals disk key).1 = .error e)
    (k : Bytes) : (layer.remove refusals disk key).2.1.get refusals k = layer.get refusals k := by
  unfold remove at failed ⊢
  dsimp only at failed ⊢
  split at failed
  · next refused =>
    rw [if_pos refused]
    rfl
  · next allowed =>
    rw [if_neg allowed]
    unfold get
    dsimp only
    rw [Store.get_remove_of_error failed k]

namespace Storage

variable {s : Storage} {id : LayerId} {key : Bytes} {e : StoreError}

theorem peek_eq_visible (s : Storage) (id : LayerId) (key : Bytes) :
    s.peek id key = visible (s.get id key) := rfl

theorem get_remove_of_error (failed : (s.remove id key).1 = .error e) (other : LayerId)
    (k : Bytes) : (s.remove id key).2.get other k = s.get other k := by
  unfold remove at failed ⊢
  cases found : s.layer? id with
  | none => rfl
  | some layer =>
    rw [found] at failed
    have known :
        ({ s with disk := (layer.remove s.refusals s.disk key).2.2 }.layer? id).isSome := by
      rw [layer?_disk, found]
      rfl
    unfold get
    dsimp only at failed ⊢
    rw [refusals_setLayer]
    by_cases own : other = id
    · subst own
      rw [layer?_setLayer_self known, found]
      exact Layer.get_remove_of_error failed k
    · rw [layer?_setLayer_of_ne own, layer?_disk]

end Storage

namespace Vault

variable {v : Vault} {hash : NodeHash} {e : ManagerError}

/-- Reads a key where the main store answers this. -/
def getOver (v : Vault) (answer : Except StoreError (Option Bytes)) (key : Bytes) :
    Except ManagerError Bytes :=
  match visible answer <|> v.storage.peek .checkpoints key <|> v.legacy.get v.storage key with
  | some value => .ok value
  | none => .error .keyNotFound

theorem get_eq_getOver (v : Vault) (key : Bytes) :
    v.get key = v.getOver (v.storage.get .main key) key := rfl

theorem get_remove_of_error (failed : (v.remove hash).1 = .error e) (key : Bytes) :
    (v.remove hash).2.get key = v.get key := by
  obtain ⟨e', failed⟩ : ∃ e', (v.storage.remove .main hash.bytes).1 = .error e' := by
    unfold remove at failed
    dsimp only at failed
    cases answer : (v.storage.remove .main hash.bytes).1 with
    | error e' => exact ⟨e', rfl⟩
    | ok _ =>
      rw [answer] at failed
      cases failed
  have still (id : LayerId) : (v.remove hash).2.storage.peek id key = v.storage.peek id key := by
    rw [Storage.peek_eq_visible, Storage.peek_eq_visible]
    exact congrArg visible (Storage.get_remove_of_error failed id key)
  unfold get
  rw [lookup_eq, lookup_eq, funext still]
  rfl

end Vault

namespace Tracker

/-- A tracker that has been told to remove a hash: that is no longer pending, and nothing else has
changed but the size, by the width of the hash for every commit that had it. -/
structure Forgets (t : Tracker) (hash : NodeHash) (t' : Tracker) : Prop where
  shouldCommit : ∀ h, t'.shouldCommit h = true ↔ t.shouldCommit h = true ∧ h ≠ hash
  size : t'.size = t.size - (t.entries.countP fun e => e.hashes.contains hash) * hashWidth
  roots : t'.roots = t.roots
  budget : t'.budget = t.budget

theorem forgets_remove (t : Tracker) (hash : NodeHash) : t.Forgets hash (t.remove hash) := by
  refine ⟨fun h => shouldCommit_remove, rfl, ?_, rfl⟩
  simp [roots, remove]

end Tracker

/-- What readers find after a removal from a main store with partitions has failed at the first
of the partitions that are left, oldest first. -/
structure Vault.Halted {π : Type} (v : Vault) (kind : PartitionKind π) (key : Bytes)
    (ps left : List π) : Prop where
  others : ∀ k, k ≠ key → v.getOver (kind.search k (kind.removeFrom key ps).2.reverse) k =
    v.getOver (kind.search k ps.reverse) k
  /-- What was left has an answer, so the partitions before it are not asked. -/
  own : kind.search key left.reverse ≠ .ok none →
    v.getOver (kind.search key (kind.removeFrom key ps).2.reverse) key =
      v.getOver (kind.search key ps.reverse) key
  /-- The partitions before it have lost the key. -/
  lost : kind.search key left.reverse = .ok none →
    v.getOver (kind.search key (kind.removeFrom key ps).2.reverse) key = v.getOver (.ok none) key

theorem Vault.halted_of_error {π : Type} {kind : PartitionKind π} {key : Bytes} {ps : List π}
    {e : StoreError} (lawful : kind.Lawful) (failed : (kind.removeFrom key ps).1 = .error e) :
    ∃ (older : List π) (p : π) (newer : List π), ps = older ++ p :: newer ∧
      (kind.remove p key).1 = .error e ∧ ∀ v : Vault, v.Halted kind key ps (p :: newer) := by
  obtain ⟨older, p, newer, parts, stops, others, own, lost⟩ :=
    PartitionKind.search_of_error lawful failed
  refine ⟨older, p, newer, parts, stops, fun v => ⟨fun k ne => by rw [others k ne],
    fun some_ => by rw [own some_], fun none_ => ?_⟩⟩
  have unseen : visible (kind.search key (kind.removeFrom key ps).2.reverse) = none := by
    have lost := lost none_
    generalize kind.search key (kind.removeFrom key ps).2.reverse = answer at lost
    rcases answer with e | _ | value
    · rfl
    · rfl
    · exact absurd rfl (lost value)
  unfold getOver
  rw [unseen]
  rfl

namespace Manager

/-- After a removal that fails the hash is no longer tracked, just as after one that succeeds, and
all keys read as before.  If the partitions of the main store are of another kind, the hash may
have been lost in those that are older than the one that failed. -/
theorem remove_of_error :
    (∀ {m : Manager} {hash : NodeHash} {e : ManagerError}, (m.remove hash).1 = .error e →
      (∀ key, (m.remove hash).2.get key = m.get key) ∧
      m.vault.tracker.Forgets hash (m.remove hash).2.vault.tracker) ∧
    ∀ {π : Type} {kind : PartitionKind π} {ps : List π} {hash : NodeHash} {e : StoreError},
      kind.Lawful → (kind.removeFrom hash.bytes ps).1 = .error e →
      ∃ (older : List π) (p : π) (newer : List π), ps = older ++ p :: newer ∧
        (kind.remove p hash.bytes).1 = .error e ∧
        ∀ v : Vault, v.Halted kind hash.bytes ps (p :: newer) :=
  ⟨fun {m hash _} failed => ⟨Vault.get_remove_of_error failed,
    m.vault.tracker.forgets_remove hash⟩, Vault.halted_of_error⟩

/-- A hash that is tracked and removed. -/
def forgotten : NodeHash := ⟨List.replicate 32 7, by simp⟩

/-- It is tracked, and the manager is closed. -/
def forgottenRun : List Event := [.action (.addDirty .emptyTrie [forgotten]), .action .close]

/-- Partitions in memory, some of which can only be read. -/
def partlyReadOnly : PartitionKind (MemoryStore × Bool) where
  get p := p.1.get
  remove p key := if p.2 then (.error .io, p) else ((p.1.remove key).1, (p.1.remove key).2, false)

theorem lawful_partlyReadOnly : partlyReadOnly.Lawful := by
  refine ⟨fun {p key e} failed k => ?_, fun {p key} taken k ne => ?_, fun {p key value} taken => ?_⟩
  all_goals
    obtain ⟨s, readOnly⟩ := p
    cases readOnly
  · exact MemoryStore.lawful_kind.failed failed k
  · rfl
  · exact MemoryStore.lawful_kind.others taken k ne
  · cases taken
  · exact MemoryStore.lawful_kind.gone taken
  · cases taken

/-- The older of two partitions has a value under the hash, the newer one can only be read. -/
def lostParts : List (MemoryStore × Bool) :=
  [({ table := Table.empty.insert forgotten.bytes [49] }, false), ({}, true)]

/-- In a closed manager a hash is not tracked any more after its removal has failed.  Where a newer
partition cannot be written, it is not read any more either. -/
theorem forgottenRun_removes : ∃ m, runFrom (inMemory {} none) {} forgottenRun = some m ∧
    (m.remove forgotten).1 = .error (.store .closed) ∧
    (∀ key, (m.remove forgotten).2.get key = m.get key) ∧
    (m.remove forgotten).2.shouldCommit forgotten = false ∧
    (m.remove forgotten).2.vault.tracker.size = 32 ∧
    m.vault.getOver (partlyReadOnly.search forgotten.bytes lostParts.reverse) forgotten.bytes =
      .ok [49] ∧
    m.vault.getOver (partlyReadOnly.search forgotten.bytes
      (partlyReadOnly.removeFrom forgotten.bytes lostParts).2.reverse) forgotten.bytes =
        .error .keyNotFound := by
  have evaluated : ∃ m, runFrom (inMemory {} none) {} forgottenRun = some m ∧
      ((m.remove forgotten).1 = .error (.store .closed) ∧
        m.vault.tracker.size - (m.vault.tracker.entries.countP fun e =>
          e.hashes.contains forgotten) * Tracker.hashWidth = 32 ∧
        m.vault.getOver (partlyReadOnly.search forgotten.bytes lostParts.reverse)
          forgotten.bytes = .ok [49] ∧
        m.vault.getOver (.ok none) forgotten.bytes = .error .keyNotFound) :=
    exists_of_runFrom (by decide +kernel)
  obtain ⟨m, ran, failed, size, before, without⟩ := evaluated
  obtain ⟨reads, forgets⟩ := remove_of_error.1 failed
  have stopped : (partlyReadOnly.removeFrom forgotten.bytes lostParts).1 = .error .io := by
    decide +kernel
  obtain ⟨older, p, newer, parts, stops, halted⟩ :=
    remove_of_error.2 lawful_partlyReadOnly stopped
  refine ⟨m, ran, failed, reads, ?_, forgets.size.trans size, before, ?_⟩
  · have gone := (forgets.shouldCommit forgotten).not.2 fun both => both.2 rfl
    exact Bool.eq_false_iff.2 gone
  · have left : partlyReadOnly.search forgotten.bytes (p :: newer).reverse = .ok none := by
      rcases older with _ | ⟨q, _ | ⟨r, older⟩⟩
      · obtain ⟨rfl, rfl⟩ := List.cons.inj parts
        exact absurd stops (by decide +kernel)
      · obtain ⟨rfl, rfl⟩ := List.cons.inj (List.cons.inj parts).2
        decide +kernel
      · simp [lostParts] at parts
    exact ((halted m.vault).lost left).trans without

/-- So a removal that fails does not leave a manager as it was. -/
theorem forgottenRun_loses : ∃ m, runFrom (inMemory {} none) {} forgottenRun = some m ∧
    (m.remove forgotten).1 = .error (.store .closed) ∧
    m.shouldCommit forgotten = true ∧ (m.remove forgotten).2.shouldCommit forgotten = false ∧
    m.vault.tracker.size = 64 ∧ (m.remove forgotten).2.vault.tracker.size = 32 :=
  exists_of_runFrom (by decide +kernel)

end Manager

end TrieStorage
