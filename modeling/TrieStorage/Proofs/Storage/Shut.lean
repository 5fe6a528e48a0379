import TrieStorage.Storage.Layer

/-!
# Stores that are shut

A store that is not split by epoch has one door.  Once that is shut, no call of the store or of
its layer changes anything that is stored.
-/

namespace TrieStorage

/-- The store is not split by epoch, and has been closed. -/
def Store.IsShut : Store → Prop
  | .memory s => s.closed = true
  | .logged s => s.log = none
  | .partitioned _ => False

namespace Store.IsShut

variable {s : Store} (shut : s.IsShut)

include shut

theorem get (key : Bytes) : s.get key = .error .closed := by
  cases s with
  | memory s =>
    have closed : s.closed = true := shut
    simp [Store.get, MemoryStore.get, closed]
  | logged s =>
    have closed : s.log = none := shut
    simp [Store.get, LoggedStore.get, closed]
  | partitioned s => exact shut.elim

theorem put (disk : Disk) (key value : Bytes) :
    s.put disk key value = (.error .closed, s, disk) := by
  cases s with
  | memory s =>
    have closed : s.closed = true := shut
    simp [Store.put, MemoryStore.put, closed]
  | logged s =>
    have closed : s.log = none := shut
    simp [Store.put, LoggedStore.put, LoggedStore.append, closed]
  | partitioned s => exact shut.elim

theorem remove (disk : Disk) (key : Bytes) : s.remove disk key = (.error .closed, s, disk) := by
  cases s with
  | memory s =>
    have closed : s.closed = true := shut
    simp [Store.remove, MemoryStore.remove, closed]
  | logged s =>
    have closed : s.log = none := shut
    simp [Store.remove, LoggedStore.remove, LoggedStore.append, closed]
  | partitioned s => exact shut.elim

theorem close : s.close.2.IsShut := by
  cases s with
  | memory s => rfl
  | logged s =>
    have closed : s.log = none := shut
    simpa [Store.close, LoggedStore.close, closed] using shut
  | partitioned s => exact shut.elim

theorem selectEpoch (epoch : Epoch) : s.selectEpoch epoch = s := by
  cases s with
  | partitioned s => exact shut.elim
  | _ => rfl

end Store.IsShut

namespace Layer

variable {layer : Layer} (shut : layer.store.IsShut)

include shut

theorem put_of_isShut (refusals : Refusals) (disk : Disk) (key value : Bytes) :
    (layer.put refusals disk key value).2.1.store = layer.store ∧
      (layer.put refusals disk key value).2.2 = disk := by
  unfold put
  dsimp only
  split
  · exact ⟨rfl, rfl⟩
  · rw [shut.put]
    exact ⟨rfl, rfl⟩

theorem remove_of_isShut (refusals : Refusals) (disk : Disk) (key : Bytes) :
    (layer.remove refusals disk key).2.1.store = layer.store ∧
      (layer.remove refusals disk key).2.2 = disk := by
  unfold remove
  dsimp only
  split
  · exact ⟨rfl, rfl⟩
  · rw [shut.remove]
    exact ⟨rfl, rfl⟩

end Layer

end TrieStorage
