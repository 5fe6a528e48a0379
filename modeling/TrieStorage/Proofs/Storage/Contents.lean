import Mathlib.Data.Set.Finite.Lattice
import TrieStorage.Proofs.Walk.Solo
import TrieStorage.Proofs.Walk.Trie

/-!
# What can be found at all

A table has finitely many entries, so only finitely many keys are found in a
store, in a layer, or by reading through all layers; and the trie that can be
read has finitely many nodes.
-/

namespace TrieStorage

theorem Table.finite_keys (table : Table) : {key | (table.get? key).isSome}.Finite := by
  refine (List.finite_toSet (table.entries.map Prod.fst)).subset fun key found => ?_
  have mem : ∀ entries : List (Bytes × Bytes), (lookup key entries).isSome →
      key ∈ entries.map Prod.fst := by
    intro entries found
    induction entries with
    | nil => cases found
    | cons e rest ih =>
      by_cases own : e.1 = key
      · rw [← own]
        exact List.mem_cons_self
      · rw [lookup, if_neg own] at found
        exact List.mem_cons_of_mem _ (ih found)
  exact mem table.entries found

theorem MemoryStore.isSome_of_get {s : MemoryStore} {key value : Bytes}
    (h : s.get key = .ok (some value)) : (s.table.get? key).isSome := by
  unfold get at h
  split at h
  · cases h
  · rw [Except.ok.inj h]
    rfl

theorem PartitionedStore.exists_of_search {key value : Bytes} {l : List (Epoch × MemoryStore)}
    (h : search key l = .ok (some value)) : ∃ p ∈ l, p.2.get key = .ok (some value) := by
  induction l with
  | nil => cases h
  | cons p rest ih =>
    unfold search at h
    split at h
    · cases h
    · next found =>
      rw [← h]
      exact ⟨p, List.mem_cons_self, found⟩
    · obtain ⟨q, mem, found⟩ := ih h
      exact ⟨q, List.mem_cons_of_mem _ mem, found⟩

theorem Store.finite_keys (s : Store) : {key | ∃ value, s.get key = .ok (some value)}.Finite := by
  cases s with
  | memory s =>
    refine s.table.finite_keys.subset fun key ⟨value, found⟩ => ?_
    exact MemoryStore.isSome_of_get found
  | logged s =>
    refine s.table.finite_keys.subset fun key ⟨value, found⟩ => ?_
    have found : s.get key = .ok (some value) := found
    unfold LoggedStore.get at found
    split at found
    · cases found
    · show (s.table.get? key).isSome
      rw [Except.ok.inj found]
      rfl
  | partitioned s =>
    have each : (⋃ p ∈ {p | p ∈ s.partitions}, {key | (p.2.table.get? key).isSome}).Finite :=
      (List.finite_toSet s.partitions).biUnion fun p _ => p.2.table.finite_keys
    refine each.subset fun key ⟨value, found⟩ => ?_
    obtain ⟨p, mem, found⟩ := PartitionedStore.exists_of_search found
    exact Set.mem_biUnion (List.mem_reverse.1 mem) (MemoryStore.isSome_of_get found)

theorem Storage.finite_keys (s : Storage) (id : LayerId) : {key | (s.peek id key).isSome}.Finite := by
  cases found : s.layer? id with
  | none =>
    refine Set.finite_empty.subset fun key hit => ?_
    have hit : (s.peek id key).isSome := hit
    simp [peek, get, found] at hit
  | some layer =>
    refine layer.store.finite_keys.subset fun key hit => ?_
    have hit : (s.peek id key).isSome := hit
    simp only [peek, get, found, Layer.get] at hit
    split at hit
    · next value read =>
      split at read
      · cases read
      · exact ⟨value, read⟩
    · cases hit
    · cases hit

namespace Vault

theorem finite_keys (v : Vault) : {key | (v.lookup key).isSome}.Finite := by
  have each : (⋃ id ∈ {id | id ∈ v.readOrder}, {key | (v.storage.peek id key).isSome}).Finite :=
    (List.finite_toSet v.readOrder).biUnion fun id _ => v.storage.finite_keys id
  refine each.subset fun key hit => ?_
  obtain ⟨value, found⟩ := Option.isSome_iff_exists.1 hit
  rw [lookup_eq] at found
  obtain ⟨id, mem, found⟩ := List.exists_of_findSome?_eq_some found
  refine Set.mem_biUnion mem ?_
  show (v.storage.peek id key).isSome
  rw [found]
  rfl

theorem finite_trie (v : Vault) : {hash | (v.trie hash).isSome}.Finite := by
  have addresses : Function.Injective NodeHash.bytes := fun _ _ same => NodeHash.ext same
  refine (v.finite_keys.preimage addresses.injOn).subset fun hash hit => ?_
  obtain ⟨p, node⟩ := Option.isSome_iff_exists.1 hit
  show (v.lookup hash.bytes).isSome
  rw [Walk.lookup_of_readNode (trie_eq_some.1 node)]
  rfl

end Vault

end TrieStorage
