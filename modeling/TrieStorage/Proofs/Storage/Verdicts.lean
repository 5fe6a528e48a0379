import TrieStorage.Proofs.Storage.Copying
import TrieStorage.Proofs.Store.Flat

/-!
# What puts are answered

Whether a store takes a put does not depend on the key, the value or the disk, and neither puts
nor removals change it: it is known beforehand, and stays so until the store is closed or another
epoch is selected.  Where no partition has been closed and each can be made, selecting an epoch
does not change it either, so that puts may be sent elsewhere behind the back of whoever makes
them.
-/

namespace TrieStorage

/-! ## Stores in memory and on disk -/

namespace MemoryStore

variable (s : MemoryStore)

/-- The answer to any put. -/
def verdict : Except StoreError Unit := if s.closed then .error .closed else .ok ()

theorem put_verdict (key value : Bytes) :
    (s.put key value).1 = s.verdict ∧ (s.put key value).2.closed = s.closed := by
  unfold put verdict
  split <;> exact ⟨rfl, rfl⟩

theorem closed_remove (key : Bytes) : (s.remove key).2.closed = s.closed := by
  unfold remove
  split <;> rfl

theorem verdict_of_opened {s : MemoryStore} (opened : s.closed = false) : s.verdict = .ok () := by
  simp [verdict, opened]

theorem verdict_congr {s s' : MemoryStore} (same : s'.closed = s.closed) :
    s'.verdict = s.verdict := by
  unfold verdict
  rw [same]

end MemoryStore

namespace LoggedStore

variable (s : LoggedStore)

/-- The answer to any put. -/
def verdict : Except StoreError Unit := if s.log.isSome then .ok () else .error .closed

theorem append_verdict (disk : Disk) (record : LogRecord) :
    (s.append disk record).1 = s.verdict ∧ (s.append disk record).2.1.verdict = s.verdict := by
  unfold append verdict
  split
  all_goals
    next log =>
    rw [log]
    exact ⟨rfl, rfl⟩

/-- A removal leaves all other keys alone. -/
theorem get_remove_of_ne {key k : Bytes} (ne : k ≠ key) (disk : Disk) :
    (s.remove disk key).2.1.get k = s.get k := by
  unfold remove append
  split
  · rfl
  · next log => simp only [get, log, LogRecord.apply, Table.get?_erase, if_neg (Ne.symm ne)]

end LoggedStore

/-! ## Stores split by epoch -/

namespace PartitionedStore

variable {s : PartitionedStore}

/-- The answer to any put. -/
def verdict (s : PartitionedStore) : Except StoreError Unit :=
  s.partitionForPut.bind MemoryStore.verdict

/-- Every partition that is there is open, and every other can be made. -/
structure Uniform (s : PartitionedStore) : Prop where
  opened : ∀ p ∈ s.partitions, p.2.closed = false
  makes : ∀ epoch, s.refuses epoch = none

theorem put_verdict (s : PartitionedStore) (key value : Bytes) :
    (s.put key value).1 = s.verdict ∧ (s.put key value).2.verdict = s.verdict := by
  unfold put
  rcases chosen : s.partitionForPut with e | p
  · exact ⟨by rw [verdict, chosen]; rfl, rfl⟩
  · obtain ⟨answer, door⟩ := p.put_verdict key value
    have own : s.verdict = p.verdict := by rw [verdict, chosen]; rfl
    have after : (s.setPartition s.selected (p.put key value).2).verdict =
        (p.put key value).2.verdict := by
      unfold verdict
      exact congrArg (·.bind MemoryStore.verdict) (s.partitionForPut_setPartition _)
    exact ⟨answer.trans own.symm, (after.trans (MemoryStore.verdict_congr door)).trans own.symm⟩

/-- A removal opens and closes no partition. -/
theorem partition?_remove (s : PartitionedStore) (key : Bytes) (epoch : Epoch) :
    ((s.remove key).2.partition? epoch).map MemoryStore.closed =
      (s.partition? epoch).map MemoryStore.closed := by
  have all (l : List (Epoch × MemoryStore)) :
      ((removeFrom key l).2.find? fun p => p.1 = epoch).map (fun p => p.2.closed) =
        (l.find? fun p => p.1 = epoch).map fun p => p.2.closed := by
    induction l with
    | nil => rfl
    | cons q rest ih =>
      have own := q.2.closed_remove key
      unfold removeFrom
      split
      all_goals
        next removed =>
        rw [removed] at own
        by_cases here : q.1 = epoch
        · simpa [here] using own
        · simp [here, ih]
  unfold partition?
  rw [Option.map_map, Option.map_map]
  exact all s.partitions

theorem remove_verdict (s : PartitionedStore) (key : Bytes) :
    (s.remove key).2.verdict = s.verdict := by
  have same := s.partition?_remove key s.selected
  unfold verdict partitionForPut
  rw [show (s.remove key).2.selected = s.selected from rfl,
    show (s.remove key).2.refuses = s.refuses from rfl]
  cases before : s.partition? s.selected with
  | none =>
    rw [before, Option.map_none, Option.map_eq_none_iff] at same
    rw [same]
  | some p =>
    rw [before, Option.map_some, Option.map_eq_some_iff] at same
    obtain ⟨q, after, door⟩ := same
    rw [after]
    exact MemoryStore.verdict_congr door

namespace Uniform

theorem verdict (h : s.Uniform) : s.verdict = .ok () := by
  unfold PartitionedStore.verdict partitionForPut
  cases found : s.partition? s.selected with
  | none =>
    rw [h.makes]
    rfl
  | some p => exact MemoryStore.verdict_of_opened (h.opened _ (mem_of_partition? found))

theorem put (h : s.Uniform) (key value : Bytes) : (s.put key value).2.Uniform := by
  have taken := h.verdict
  unfold PartitionedStore.verdict at taken
  unfold PartitionedStore.put
  rcases chosen : s.partitionForPut with e | p
  · exact h
  · rw [chosen] at taken
    have opened : (p.put key value).2.closed = false := by
      rw [(p.put_verdict key value).2]
      by_contra closed
      simp [Except.bind, MemoryStore.verdict, closed] at taken
    refine ⟨fun q mem => ?_, h.makes⟩
    rcases of_mem_place mem with rfl | old
    · exact opened
    · exact h.opened q old

theorem remove (h : s.Uniform) (key : Bytes) : (s.remove key).2.Uniform := by
  refine ⟨fun p mem => ?_, h.makes⟩
  rw [show (s.remove key).2.partitions = _ from
    congrArg Prod.snd (removeFrom_of_opened h.opened key)] at mem
  obtain ⟨q, old, rfl⟩ := List.mem_map.1 mem
  exact h.opened q old

end Uniform

end PartitionedStore

/-! ## Stores of every kind -/

namespace Store

/-- The answer to any put. -/
def verdict : Store → Except StoreError Unit
  | .memory s => s.verdict
  | .logged s => s.verdict
  | .partitioned s => s.verdict

/-- It makes no difference for puts which epoch is selected: the store is not split by epoch,
or its partitions are open and every other can be made. -/
def Uniform : Store → Prop
  | .partitioned s => s.Uniform
  | _ => True

variable (s : Store)

theorem put_verdict (disk : Disk) (key value : Bytes) :
    (s.put disk key value).1 = s.verdict ∧ (s.put disk key value).2.1.verdict = s.verdict := by
  cases s with
  | memory s => exact (s.put_verdict key value).imp_right MemoryStore.verdict_congr
  | logged s => exact s.append_verdict disk (.put key value)
  | partitioned s => exact s.put_verdict key value

theorem remove_verdict (disk : Disk) (key : Bytes) :
    (s.remove disk key).2.1.verdict = s.verdict := by
  cases s with
  | memory s => exact MemoryStore.verdict_congr (s.closed_remove key)
  | logged s => exact (s.append_verdict disk (.remove key)).2
  | partitioned s => exact s.remove_verdict key

/-- A removal leaves all other keys alone. -/
theorem get_remove_of_ne {key k : Bytes} (ne : k ≠ key) (disk : Disk) :
    (s.remove disk key).2.1.get k = s.get k := by
  cases s with
  | memory s => exact MemoryStore.get_remove_of_ne ne
  | logged s => exact s.get_remove_of_ne ne disk
  | partitioned s => exact PartitionedStore.get_remove_of_ne ne

/-- Readers do not see which epoch is selected. -/
theorem get_selectEpoch (epoch : Epoch) (k : Bytes) : (s.selectEpoch epoch).get k = s.get k := by
  cases s <;> rfl

variable {s}

namespace Uniform

theorem put (h : s.Uniform) (disk : Disk) (key value : Bytes) :
    (s.put disk key value).2.1.Uniform := by
  cases s with
  | partitioned s => exact PartitionedStore.Uniform.put h key value
  | _ => trivial

theorem remove (h : s.Uniform) (disk : Disk) (key : Bytes) :
    (s.remove disk key).2.1.Uniform := by
  cases s with
  | partitioned s => exact PartitionedStore.Uniform.remove h key
  | _ => trivial

theorem selectEpoch (h : s.Uniform) (epoch : Epoch) :
    (s.selectEpoch epoch).Uniform ∧ (s.selectEpoch epoch).verdict = s.verdict := by
  cases s with
  | partitioned s =>
    have still : (s.select epoch).Uniform := ⟨h.opened, h.makes⟩
    exact ⟨still, still.verdict.trans (PartitionedStore.Uniform.verdict h).symm⟩
  | _ => exact ⟨trivial, rfl⟩

end Uniform

end Store

/-! ## Layers -/

namespace Layer

variable (layer : Layer) (refusals : Refusals)

/-- The answer to a put under a key. -/
def verdict (key : Bytes) : Except StoreError Unit :=
  if refusals.refuse layer.name .put (some key) then .error (Refusals.report layer.name .put)
  else layer.store.verdict

theorem put_verdict (disk : Disk) (key value : Bytes) :
    (layer.put refusals disk key value).1 = layer.verdict refusals key ∧
      (layer.put refusals disk key value).2.1.verdict refusals = layer.verdict refusals := by
  unfold put verdict
  dsimp only
  split
  · exact ⟨rfl, rfl⟩
  · obtain ⟨answer, still⟩ := layer.store.put_verdict disk key value
    exact ⟨answer, by rw [still]⟩

theorem remove_verdict (disk : Disk) (key : Bytes) :
    (layer.remove refusals disk key).2.1.verdict refusals = layer.verdict refusals := by
  unfold remove verdict
  dsimp only
  split
  · rfl
  · rw [layer.store.remove_verdict disk key]

theorem get_remove_of_ne {key k : Bytes} (ne : k ≠ key) (disk : Disk) :
    (layer.remove refusals disk key).2.1.get refusals k = layer.get refusals k := by
  unfold remove get
  dsimp only
  split
  · rfl
  · rw [layer.store.get_remove_of_ne ne disk]

section Uniform

variable {layer} (h : layer.store.Uniform)

include h

/-- A layer whose store makes no difference between epochs keeps that. -/
theorem uniform_put (disk : Disk) (key value : Bytes) :
    (layer.put refusals disk key value).2.1.store.Uniform := by
  rcases layer.put_cases refusals disk key value with ⟨same, -⟩ | ⟨same, -⟩
  · rw [same]
    exact h
  · rw [same]
    exact h.put disk key value

theorem uniform_remove (disk : Disk) (key : Bytes) :
    (layer.remove refusals disk key).2.1.store.Uniform := by
  rcases layer.remove_cases refusals disk key with ⟨same, -⟩ | ⟨same, -⟩
  · rw [same]
    exact h
  · rw [same]
    exact h.remove disk key

end Uniform

end Layer

/-! ## The storage -/

namespace Storage

/-- The answer to a put under a key of a layer. -/
def verdict (s : Storage) (id : LayerId) (key : Bytes) : Except StoreError Unit :=
  match s.layer? id with
  | none => .error .closed
  | some layer => layer.verdict s.refusals key

variable (s : Storage)

theorem put_verdict (id : LayerId) (key value : Bytes) :
    (s.put id key value).1 = s.verdict id key ∧
      (s.put id key value).2.verdict = s.verdict := by
  cases found : s.layer? id with
  | none => simp only [put_of_none found, verdict, found, and_self]
  | some layer =>
    obtain ⟨answer, still⟩ := layer.put_verdict s.refusals s.disk key value
    refine ⟨?_, ?_⟩
    · simp only [put_eq found, verdict, found, answer]
    · funext other k
      unfold verdict
      rw [refusals_put]
      by_cases own : other = id
      · subst own
        rw [layer?_put_self found, found]
        exact congrFun still k
      · rw [layer?_put_of_ne own]

theorem put_uniform (h : s.main.store.Uniform) (id : LayerId) (key value : Bytes) :
    (s.put id key value).2.main.store.Uniform := by
  by_cases own : id = .main
  · subst own
    exact Layer.uniform_put s.refusals h s.disk key value
  · have same : (s.put id key value).2.main = s.main :=
      Option.some.inj (layer?_put_of_ne (Ne.symm own) key value)
    rw [same]
    exact h

section Main

variable {main : Layer} {disk : Disk}

/-- A change of the main layer that puts do not see. -/
theorem verdict_main (same : main.verdict s.refusals = s.main.verdict s.refusals) :
    { s with main, disk }.verdict = s.verdict := by
  funext id
  cases id with
  | main => exact same
  | _ => rfl

/-- A change of the main layer that readers of a key do not see. -/
theorem get_main {k : Bytes} (same : main.get s.refusals k = s.main.get s.refusals k)
    (id : LayerId) : { s with main, disk }.get id k = s.get id k := by
  cases id with
  | main => exact same
  | _ => rfl

end Main

end Storage

end TrieStorage
