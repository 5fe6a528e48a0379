import TrieStorage.Generation.Legacy
import TrieStorage.Node.Codec
import TrieStorage.Proofs.Disk.Files
import TrieStorage.Proofs.Store.Closing
import TrieStorage.Proofs.Storage.Copying

/-!
# Stores of addressed values

A store into which only checked nodes and marks are put has nothing else in it: each value, but
for the mark of an active store, is under its own address and can be decoded.  Neither closing
nor a put that fails brings in anything.
-/

namespace TrieStorage

/-- The value is under its address, and can be decoded. -/
structure Scheme.Addresses (scheme : Scheme) (key value : Bytes) : Prop where
  width : key.length = 32
  address : (scheme.address value).bytes = key
  decodes : ∃ node, scheme.decode value = .ok node

/-- What a copy may put: the mark of an active store, or a value under its address. -/
def Scheme.Admits (scheme : Scheme) (key value : Bytes) : Prop :=
  key ≠ activeKey → scheme.Addresses key value

namespace Store

variable {s : Store} {disk : Disk} {key value k x : Bytes} {scheme : Scheme}

/-- A put brings in at most what is put. -/
theorem holds_of_put (h : (s.put disk key value).2.1.Holds k x) :
    s.Holds k x ∨ k = key ∧ x = value := by
  have entered {table : Table} (found : (table.insert key value).get? k = some x) :
      table.get? k = some x ∨ k = key ∧ x = value := by
    rw [Table.get?_insert] at found
    split at found
    · next same => exact .inr ⟨same.symm, (Option.some.inj found).symm⟩
    · exact .inl found
  have taken {p : MemoryStore} (found : (p.put key value).2.table.get? k = some x) :
      p.table.get? k = some x ∨ k = key ∧ x = value := by
    unfold MemoryStore.put at found
    split at found
    · exact .inl found
    · exact entered found
  cases s with
  | memory s => exact taken h
  | logged s =>
    cases log : s.log with
    | none =>
      simp only [Store.put, LoggedStore.put, LoggedStore.append, log] at h
      exact .inl h
    | some id =>
      simp only [Store.put, LoggedStore.put, LoggedStore.append, log] at h
      exact entered h
  | partitioned s =>
    simp only [Store.put, PartitionedStore.put] at h
    split at h
    · exact .inl h
    · next p chosen =>
      obtain ⟨q, mem, found⟩ := h
      rcases PartitionedStore.of_mem_place mem with rfl | old
      · refine (taken found).imp_left fun found => ?_
        -- the partition that takes the put is one of the store's, or has nothing in it
        rw [PartitionedStore.current_of_partitionForPut chosen] at found
        unfold PartitionedStore.current at found
        cases there : s.partitions.find? fun q => q.1 = s.selected with
        | none =>
          rw [there] at found
          cases found
        | some q =>
          rw [there] at found
          exact ⟨q, List.mem_of_find?_eq_some there, found⟩
      · exact .inl ⟨q, old, found⟩

theorem holds_of_close (h : s.close.2.Holds k x) : s.Holds k x := by
  cases s with
  | memory s => exact h
  | logged s =>
    unfold Store.close LoggedStore.close at h
    cases log : s.log with
    | none =>
      simp only [log] at h
      exact h
    | some id =>
      simp only [log] at h
      cases h
  | partitioned s =>
    obtain ⟨q, mem, found⟩ := h
    have same := PartitionedStore.tables_close s
    have mem : (q.1, q.2.table) ∈ (Store.partitioned s.close.2).tables :=
      List.mem_map.2 ⟨q, mem, rfl⟩
    rw [same] at mem
    obtain ⟨r, before, table⟩ := List.mem_map.1 mem
    refine ⟨r, before, ?_⟩
    rw [(Prod.mk.inj table).2]
    exact found

/-! ## Logs -/

theorem log?_put : (s.put disk key value).2.1.log? = s.log? := by
  cases s with
  | logged s => cases log : s.log <;> simp [Store.put, LoggedStore.put, LoggedStore.append, log?, log]
  | _ => rfl

theorem log?_remove : (s.remove disk key).2.1.log? = s.log? := by
  cases s with
  | logged s =>
    cases log : s.log <;> simp [Store.remove, LoggedStore.remove, LoggedStore.append, log?, log]
  | _ => rfl

theorem log?_close : s.close.2.log? = none := by
  cases s with
  | logged s => cases log : s.log <;> simp [Store.close, LoggedStore.close, log?, log]
  | _ => rfl

theorem log?_selectEpoch (epoch : Epoch) : (s.selectEpoch epoch).log? = s.log? := by
  cases s <;> rfl

/-- What one store has done to the disk: it has appended to the file it writes to, if it has
changed the disk at all. -/
def Wrote (log : Option FileId) (disk disk' : Disk) : Prop :=
  disk' = disk ∨ ∃ id bytes, log = some id ∧ disk' = disk.append id bytes

theorem wrote_append (s : LoggedStore) (record : LogRecord) :
    Wrote s.log disk (s.append disk record).2.2 := by
  unfold LoggedStore.append
  cases log : s.log with
  | none => exact .inl rfl
  | some id => exact .inr ⟨id, _, rfl, rfl⟩

theorem wrote_put : Wrote s.log? disk (s.put disk key value).2.2 := by
  cases s with
  | logged s => exact wrote_append s (.put key value)
  | _ => exact .inl rfl

theorem wrote_remove : Wrote s.log? disk (s.remove disk key).2.2 := by
  cases s with
  | logged s => exact wrote_append s (.remove key)
  | _ => exact .inl rfl

theorem disk_of_put_error {e : StoreError} (failed : (s.put disk key value).1 = .error e) :
    (s.put disk key value).2.2 = disk := by
  cases s with
  | logged s =>
    cases log : s.log with
    | none => simp [Store.put, LoggedStore.put, LoggedStore.append, log]
    | some id =>
      simp only [Store.put, LoggedStore.put, LoggedStore.append, log] at failed
      cases failed
  | _ => rfl

/-! ## What copies bring in -/

/-- Whatever the second store has beyond the first may have been put there by a copy. -/
def Gains (scheme : Scheme) (s s' : Store) : Prop :=
  ∀ key value, s'.Holds key value → s.Holds key value ∨ scheme.Admits key value

theorem Gains.refl (s : Store) : s.Gains scheme s := fun _ _ => .inl

theorem Gains.trans {s' s'' : Store} (h : s.Gains scheme s') (h' : s'.Gains scheme s'') :
    s.Gains scheme s'' := by
  intro k x found
  rcases h' k x found with before | admitted
  · exact h k x before
  · exact .inr admitted

theorem gains_put (admitted : scheme.Admits key value) :
    s.Gains scheme (s.put disk key value).2.1 := by
  intro k x found
  rcases holds_of_put found with old | ⟨rfl, rfl⟩
  · exact .inl old
  · exact .inr admitted

theorem gains_close : s.Gains scheme s.close.2 := fun _ _ found => .inl (holds_of_close found)

/-- Whatever is in the store may have been put there by a copy. -/
def Addressed (scheme : Scheme) (s : Store) : Prop :=
  ∀ key value, s.Holds key value → scheme.Admits key value

theorem addressed_of_empty (s : LoggedStore) (empty : s.table = Table.empty) :
    (Store.logged s).Addressed scheme := by
  intro key value found
  have found : s.table.get? key = some value := found
  rw [empty] at found
  cases found

theorem Addressed.gains {s' : Store} (h : s.Addressed scheme) (gains : s.Gains scheme s') :
    s'.Addressed scheme :=
  fun k x found => (gains k x found).elim (h k x) id

/-- A store on disk that has been closed has forgotten what was in it. -/
theorem addressed_close_of_log {id : FileId} (log : s.log? = some id) :
    s.close.2.Addressed scheme := by
  cases s with
  | logged s =>
    have log : s.log = some id := log
    simp only [Store.close, LoggedStore.close, log]
    exact addressed_of_empty _ rfl
  | _ => cases log

end Store

end TrieStorage
