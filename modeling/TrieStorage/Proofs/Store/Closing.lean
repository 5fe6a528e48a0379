import TrieStorage.Proofs.Store.Partitions

/-!
# Stores that have been closed

A store in memory and a store on disk have a door, and once it is shut they answer
every call the same.  The store split by epoch has a door to each partition and none of
its own.  So it answers as a closed store does as long as each call comes to a partition
that was there when it was closed: any of them, or for a put the one of the selected epoch.
-/

namespace TrieStorage

/-- What can be asked of a store. -/
inductive StoreCall where
  | get (key : Bytes)
  | put (key value : Bytes)
  | remove (key : Bytes)
  | close
  /-- Later writes are sent to the partition of an epoch. -/
  | selectEpoch (epoch : Epoch)
  deriving DecidableEq, Repr

namespace Store

/-- The store and the disk after a call. -/
def after (s : Store) (disk : Disk) : StoreCall → Store × Disk
  | .get _ => (s, disk)
  | .put key value => (s.put disk key value).2
  | .remove key => (s.remove disk key).2
  | .close => (s.close.2, disk)
  | .selectEpoch epoch => (s.selectEpoch epoch, disk)

/-- The store and the disk after some calls. -/
def afterAll (s : Store) (disk : Disk) (calls : List StoreCall) : Store × Disk :=
  calls.foldl (fun st call => st.1.after st.2 call) (s, disk)

/-- The call is answered `closed`; selecting an epoch has no answer. -/
def Rejects (s : Store) (disk : Disk) : StoreCall → Prop
  | .get key => s.get key = .error .closed
  | .put key value => (s.put disk key value).1 = .error .closed
  | .remove key => (s.remove disk key).1 = .error .closed
  | .close => s.close.1 = .error .closed
  | .selectEpoch _ => True

/-- What the store has, partition by partition; a store without partitions is one. -/
def tables : Store → List (Epoch × Table)
  | .memory s => [(0, s.table)]
  | .logged s => [(0, s.table)]
  | .partitioned s => s.partitions.map fun p => (p.1, p.2.table)

/-- Each of the calls is rejected, and changes nothing that is stored. -/
def Honours (s : Store) (disk : Disk) : List StoreCall → Prop
  | [] => True
  | call :: rest =>
    s.Rejects disk call ∧ (s.after disk call).1.tables = s.tables ∧ (s.after disk call).2 = disk ∧
      Honours (s.after disk call).1 (s.after disk call).2 rest

end Store

/-! ## The store split by epoch -/

namespace PartitionedStore

/-- Each of the calls comes to a partition: a put to that of the epoch selected by then. -/
def Covers (epochs : List Epoch) : Epoch → List StoreCall → Prop
  | _, [] => True
  | selected, .put _ _ :: rest => selected ∈ epochs ∧ Covers epochs selected rest
  | _, .selectEpoch epoch :: rest => Covers epochs epoch rest
  | selected, _ :: rest => epochs ≠ [] ∧ Covers epochs selected rest

/-- All partitions are closed, and any other can be made. -/
structure Shut (s : PartitionedStore) : Prop where
  ascending : Ascending s.partitions
  closed : ∀ p ∈ s.partitions, p.2.closed = true
  makes : ∀ epoch, s.refuses epoch = none

theorem closed_closeAll (answer : Except StoreError Unit) (l : List (Epoch × MemoryStore)) :
    ∀ p ∈ (closeAll answer l).2, p.2.closed = true := by
  induction l generalizing answer with
  | nil => simp [closeAll]
  | cons q rest ih =>
    simp only [closeAll, List.mem_cons, forall_eq_or_imp]
    exact ⟨rfl, ih _⟩

theorem shut_close {s : PartitionedStore} (ascending : Ascending s.partitions)
    (makes : ∀ epoch, s.refuses epoch = none) : s.close.2.Shut :=
  ⟨ascending.of_epochs s.epochs_close, closed_closeAll (.ok ()) s.partitions, makes⟩

namespace Shut

variable {s : PartitionedStore}

theorem get (h : s.Shut) (key : Bytes) : s.get key = .error .closed ↔ s.epochs ≠ [] := by
  unfold PartitionedStore.get epochs
  cases order : s.partitions.reverse with
  | nil => simp [List.reverse_eq_nil_iff.1 order, search]
  | cons p rest =>
    have mem : p ∈ s.partitions := List.mem_reverse.1 (by rw [order]; exact List.mem_cons_self)
    have some_ : s.partitions ≠ [] := List.ne_nil_of_mem mem
    simp [search, MemoryStore.get, h.closed p mem, some_]

theorem remove (h : s.Shut) (key : Bytes) : (s.remove key).2 = s ∧
    ((s.remove key).1 = .error .closed ↔ s.epochs ≠ []) := by
  obtain ⟨partitions, selected, refuses⟩ := s
  cases partitions with
  | nil => simp [PartitionedStore.remove, removeFrom, epochs]
  | cons p rest =>
    have closed : p.2.closed = true := h.closed p List.mem_cons_self
    simp [PartitionedStore.remove, removeFrom, MemoryStore.remove, closed, epochs]

theorem put (h : s.Shut) (key value : Bytes) :
    ((s.put key value).1 = .error .closed ↔ s.selected ∈ s.epochs) ∧
      (s.selected ∈ s.epochs → (s.put key value).2 = s) := by
  unfold PartitionedStore.put partitionForPut
  cases found : s.partition? s.selected with
  | none =>
    have missing := partition?_eq_none.1 found
    simp [h.makes, MemoryStore.put, missing]
  | some p =>
    have mem := mem_of_partition? found
    have there : s.selected ∈ s.epochs := List.mem_map.2 ⟨_, mem, rfl⟩
    have closed : p.closed = true := h.closed _ mem
    simp [MemoryStore.put, closed, there, setPartition, place_of_mem h.ascending mem]

theorem close (h : s.Shut) : s.close.2.Shut ∧ (s.close.1 = .error .closed ↔ s.epochs ≠ []) := by
  have answer (l : List (Epoch × MemoryStore)) (closed : ∀ p ∈ l, p.2.closed = true) :
      (closeAll (.error .closed) l).1 = .error .closed := by
    induction l with
    | nil => rfl
    | cons p rest ih =>
      simp only [closeAll, MemoryStore.close, closed p List.mem_cons_self, if_true]
      exact ih fun q mem => closed q (List.mem_cons_of_mem p mem)
  refine ⟨shut_close h.ascending h.makes, ?_⟩
  obtain ⟨partitions, selected, refuses⟩ := s
  cases partitions with
  | nil => simp [PartitionedStore.close, closeAll, epochs]
  | cons p rest =>
    have later := answer rest fun q mem => h.closed q (List.mem_cons_of_mem p mem)
    simp [PartitionedStore.close, closeAll, MemoryStore.close, h.closed p List.mem_cons_self, later,
      epochs]

end Shut

theorem tables_close (s : PartitionedStore) :
    (Store.partitioned s.close.2).tables = (Store.partitioned s).tables := by
  have all (answer : Except StoreError Unit) (l : List (Epoch × MemoryStore)) :
      (closeAll answer l).2.map (fun p => (p.1, p.2.table)) = l.map fun p => (p.1, p.2.table) := by
    induction l generalizing answer with
    | nil => rfl
    | cons q rest ih => simp [closeAll, MemoryStore.close, ih]
  exact all (.ok ()) s.partitions

/-- Once all partitions are closed, the store answers as a closed one does just as long as the
calls come to partitions. -/
theorem Shut.honours_iff {s : PartitionedStore} (h : s.Shut) (disk : Disk)
    (calls : List StoreCall) :
    (Store.partitioned s).Honours disk calls ↔ Covers s.epochs s.selected calls := by
  induction calls generalizing s with
  | nil => exact Iff.rfl
  | cons call rest ih =>
    cases call with
    | get key =>
      simp only [Store.Honours, Store.Rejects, Store.get, Store.after, Covers, h.get, ih h, true_and]
    | put key value =>
      obtain ⟨rejected, same⟩ := h.put key value
      simp only [Store.Honours, Store.Rejects, Store.put, Store.after, Covers, rejected]
      refine and_congr_right fun there => ?_
      rw [same there]
      simp only [ih h, true_and]
    | remove key =>
      obtain ⟨same, rejected⟩ := h.remove key
      simp only [Store.Honours, Store.Rejects, Store.remove, Store.after, Covers, rejected, same,
        ih h, true_and]
    | close =>
      obtain ⟨shut, rejected⟩ := h.close
      have epochs := s.epochs_close
      have selected : s.close.2.selected = s.selected := rfl
      simp only [Store.Honours, Store.Rejects, Store.close, Store.after, Covers, rejected,
        s.tables_close, ih shut, epochs, selected, true_and]
    | selectEpoch epoch =>
      have shut : (s.select epoch).Shut := ⟨h.ascending, h.closed, h.makes⟩
      have same : (Store.partitioned (s.select epoch)).tables = (Store.partitioned s).tables := rfl
      simp only [Store.Honours, Store.Rejects, Store.selectEpoch, Store.after, Covers, same,
        ih shut, true_and]
      rfl

end PartitionedStore

/-! ## Stores with one door -/

namespace Store

variable {disk : Disk} {calls : List StoreCall}

theorem honours_of_memory {s : MemoryStore} (closed : s.closed = true) :
    (Store.memory s).Honours disk calls := by
  induction calls generalizing s with
  | nil => trivial
  | cons call rest ih =>
    cases call with
    | get key => exact ⟨by simp [Rejects, Store.get, MemoryStore.get, closed], rfl, rfl, ih closed⟩
    | put key value =>
      have same : s.put key value = (.error .closed, s) := by simp [MemoryStore.put, closed]
      simp only [Honours, Rejects, Store.put, after, same, true_and]
      exact ih closed
    | remove key =>
      have same : s.remove key = (.error .closed, s) := by simp [MemoryStore.remove, closed]
      simp only [Honours, Rejects, Store.remove, after, same, true_and]
      exact ih closed
    | close =>
      have answer : s.close.1 = .error .closed := by simp [MemoryStore.close, closed]
      exact ⟨answer, rfl, rfl, ih rfl⟩
    | selectEpoch epoch => exact ⟨trivial, rfl, rfl, ih closed⟩

theorem honours_of_logged {s : LoggedStore} (closed : s.log = none) :
    (Store.logged s).Honours disk calls := by
  induction calls with
  | nil => trivial
  | cons call rest ih =>
    have stays : ((Store.logged s).after disk call).1 = .logged s ∧
        ((Store.logged s).after disk call).2 = disk ∧ (Store.logged s).Rejects disk call := by
      cases call <;>
        simp [after, Rejects, Store.get, LoggedStore.get, Store.put, LoggedStore.put, Store.remove,
          LoggedStore.remove, LoggedStore.append, Store.close, LoggedStore.close, Store.selectEpoch,
          closed]
    obtain ⟨same, unwritten, rejected⟩ := stays
    simp only [Honours, same, unwritten, true_and]
    exact ⟨rejected, ih⟩

/-! ## Every store -/

/-- Each of the calls comes to a door that has been shut. -/
def Covers : Store → List StoreCall → Prop
  | .partitioned s, calls => PartitionedStore.Covers s.epochs s.selected calls
  | _, _ => True

/-- A store that has just been made, on the disk that this leaves. -/
inductive New : Store → Disk → Prop where
  | memory (disk : Disk) : New (.memory {}) disk
  | logged {before disk : Disk} {dir : String} {s : LoggedStore}
      (opened : LoggedStore.openAt before dir = (.ok s, disk)) : New (.logged s) disk
  | partitioned (disk : Disk) : New (.partitioned {}) disk

/-- A store whose partitions are in order and, if it has any, can all be made. -/
structure Sound (s : Store) : Prop where
  ordered : s.Ordered
  makes : ∀ p, s = .partitioned p → ∀ epoch, p.refuses epoch = none

theorem New.sound {s : Store} (h : s.New disk) : s.Sound := by
  cases h with
  | memory | logged => exact ⟨trivial, nofun⟩
  | partitioned => exact ⟨List.Pairwise.nil, fun p same _ => by cases same; rfl⟩

theorem Sound.after {s : Store} (h : s.Sound) (disk : Disk) (call : StoreCall) :
    (s.after disk call).1.Sound := by
  have ordered : (s.after disk call).1.Ordered := by
    cases call with
    | get key => exact h.ordered
    | put key value => exact h.ordered.put disk key value
    | remove key => exact h.ordered.remove disk key
    | close => exact h.ordered.close
    | selectEpoch epoch => exact h.ordered.selectEpoch epoch
  refine ⟨ordered, ?_⟩
  cases s with
  | memory s => cases call <;> nofun
  | logged s => cases call <;> nofun
  | partitioned s =>
    have makes := h.makes s rfl
    cases call with
    | put key value =>
      rintro p own
      cases own
      show ∀ epoch, (s.put key value).2.refuses epoch = none
      rcases s.partitions_put key value with same | ⟨q, same⟩
      all_goals
        rw [same]
        exact makes
    | get | remove | close | selectEpoch =>
      rintro p own
      cases own
      exact makes

theorem Sound.afterAll {s : Store} (h : s.Sound) (disk : Disk) (calls : List StoreCall) :
    (s.afterAll disk calls).1.Sound := by
  induction calls generalizing s disk with
  | nil => exact h
  | cons call rest ih => exact ih (h.after disk call) _

/-- Once a store has been told to close, after any calls whatever, it rejects all later calls and
keeps what is stored for exactly as long as each of them comes to a door that has been shut.  In
memory and on disk that is for good; with partitions it is until a call comes to none. -/
theorem honours_iff_covers {s : Store} (new : s.New disk) (history later : List StoreCall) :
    (s.afterAll disk history).1.close.2.Honours (s.afterAll disk history).2 later ↔
      (s.afterAll disk history).1.close.2.Covers later := by
  have sound := new.sound.afterAll disk history
  generalize s.afterAll disk history = st at sound ⊢
  obtain ⟨s, disk⟩ := st
  cases s with
  | memory s => exact iff_of_true (honours_of_memory rfl) trivial
  | logged s =>
    have shut : s.close.2.log = none := by
      unfold LoggedStore.close
      split
      · assumption
      · rfl
    exact iff_of_true (honours_of_logged shut) trivial
  | partitioned s =>
    have shut := PartitionedStore.shut_close sound.ordered (sound.makes s rfl)
    exact shut.honours_iff disk later

/-- Two partitions, of which the second takes the puts. -/
def twoEpochs : List StoreCall := [.put [1] [10], .selectEpoch 3, .put [2] [20]]

/-- Each of these calls comes to one of them. -/
def lateCalls : List StoreCall :=
  [.get [1], .put [1] [11], .selectEpoch 0, .put [3] [30], .remove [2], .close]

theorem twoEpochs_honours_lateCalls :
    ((Store.partitioned {}).afterAll {} twoEpochs).1.close.1 = .ok () ∧
      ((Store.partitioned {}).afterAll {} twoEpochs).1.close.2.Honours {} lateCalls := by
  have covered : PartitionedStore.Covers [0, 3] 3 lateCalls := by
    simp [PartitionedStore.Covers, lateCalls]
  exact ⟨rfl, (honours_iff_covers (.partitioned {}) twoEpochs lateCalls).2 covered⟩

/-- A store without any partition closes, and is not closed: it finds nothing, and takes a
put. -/
theorem unpartitioned_takes_put :
    (Store.partitioned {}).New {} ∧ (Store.partitioned {}).close.1 = .ok () ∧
      (Store.partitioned {}).close.2.get [97] = .ok none ∧
      ((Store.partitioned {}).close.2.put {} [97] [49]).1 = .ok () ∧
      ((Store.partitioned {}).close.2.put {} [97] [49]).2.1.get [97] = .ok (some [49]) ∧
      ¬ (Store.partitioned {}).close.2.Honours {} [.get [97], .put [97] [49]] := by
  refine ⟨.partitioned {}, rfl, rfl, rfl, rfl, fun honours => ?_⟩
  cases honours.1

end Store

end TrieStorage
