import Mathlib.Control.Monad.Basic
import TrieStorage.Proofs.Store.Puts

/-!
# Partitions in order

Whatever is done to a store split by epoch, its partitions stand in ascending order.
So every epoch has one place among them, and a reader asks just the newer ones before it.
-/

namespace TrieStorage

namespace PartitionedStore

/-- The partitions stand in ascending order. -/
def Ascending (l : List (Epoch × MemoryStore)) : Prop := l.Pairwise fun p q => p.1 < q.1

variable {l l' : List (Epoch × MemoryStore)} {epoch : Epoch} {p : MemoryStore}

theorem Ascending.of_epochs (h : Ascending l) (same : l'.map Prod.fst = l.map Prod.fst) :
    Ascending l' := by
  unfold Ascending at h ⊢
  rw [← List.pairwise_map (f := Prod.fst) (R := fun a b : Epoch => a < b)] at h ⊢
  rw [same]
  exact h

/-- The partition of an epoch is put between the older ones and the newer ones. -/
theorem place_eq (h : Ascending l) : place epoch p l =
    l.filter (fun q => q.1 < epoch) ++ (epoch, p) :: l.filter fun q => epoch < q.1 := by
  induction l with
  | nil => rfl
  | cons q rest ih =>
    obtain ⟨e, q⟩ := q
    obtain ⟨first, later⟩ := List.pairwise_cons.1 h
    have older (le : epoch ≤ e) : rest.filter (fun r => r.1 < epoch) = [] :=
      List.filter_eq_nil_iff.2 fun r mem => by
        simpa using Nat.le_of_lt (Nat.lt_of_le_of_lt le (first r mem))
    have newer (le : epoch ≤ e) : rest.filter (fun r => epoch < r.1) = rest :=
      List.filter_eq_self.2 fun r mem => by simpa using Nat.lt_of_le_of_lt le (first r mem)
    rw [place, List.filter_cons, List.filter_cons]
    rcases Nat.lt_trichotomy epoch e with lt | rfl | gt
    · simp [lt, Nat.lt_asymm lt, older (Nat.le_of_lt lt), newer (Nat.le_of_lt lt)]
    · simp [older (Nat.le_refl _), newer (Nat.le_refl _)]
    · simp [gt, Nat.lt_asymm gt, Nat.ne_of_gt gt, ih later]

/-- The partitions are those up to an epoch, and the newer ones behind them. -/
theorem append_newer (h : Ascending l) (epoch : Epoch) :
    l.filter (fun q => q.1 ≤ epoch) ++ l.filter (fun q => epoch < q.1) = l := by
  induction l with
  | nil => rfl
  | cons q rest ih =>
    obtain ⟨first, later⟩ := List.pairwise_cons.1 h
    by_cases old : q.1 ≤ epoch
    · simp [old, Nat.not_lt.2 old, ih later]
    · have new : epoch < q.1 := Nat.not_le.1 old
      have beyond (r : Epoch × MemoryStore) (mem : r ∈ rest) : epoch < r.1 :=
        Nat.lt_trans new (first r mem)
      have none_ : rest.filter (fun r => r.1 ≤ epoch) = [] :=
        List.filter_eq_nil_iff.2 fun r mem => by simpa using beyond r mem
      have all : rest.filter (fun r => epoch < r.1) = rest :=
        List.filter_eq_self.2 fun r mem => by simpa using beyond r mem
      simp [old, new, none_, all]

theorem ascending_place (h : Ascending l) : Ascending (place epoch p l) := by
  rw [place_eq h]
  refine List.pairwise_append.2 ⟨h.filter _, List.pairwise_cons.2 ⟨fun r newer => ?_, h.filter _⟩,
    fun q older r mem => ?_⟩
  · simpa using (List.mem_filter.1 newer).2
  · have before : q.1 < epoch := by simpa using (List.mem_filter.1 older).2
    rcases List.mem_cons.1 mem with rfl | newer
    · exact before
    · exact Nat.lt_trans before (by simpa using (List.mem_filter.1 newer).2)

/-- Putting a partition where it is already changes nothing. -/
theorem place_of_mem (h : Ascending l) (mem : (epoch, p) ∈ l) : place epoch p l = l := by
  induction l with
  | nil => cases mem
  | cons q rest ih =>
    obtain ⟨first, later⟩ := List.pairwise_cons.1 h
    rcases List.mem_cons.1 mem with rfl | mem
    · rw [place, if_neg (Nat.lt_irrefl _), if_pos rfl]
    · have newer : q.1 < epoch := first _ mem
      rw [place, if_neg (Nat.lt_asymm newer), if_neg (Nat.ne_of_gt newer), ih later mem]

/-! ## One store -/

variable {s : PartitionedStore}

theorem mem_of_partition? (found : s.partition? epoch = some p) : (epoch, p) ∈ s.partitions := by
  obtain ⟨⟨e, q⟩, hit, rfl⟩ := Option.map_eq_some_iff.1 found
  have same : e = epoch := by simpa using List.find?_some hit
  rw [← same]
  exact List.mem_of_find?_eq_some hit

theorem partition?_eq_none : s.partition? epoch = none ↔ epoch ∉ s.epochs := by
  simp only [partition?, epochs, Option.map_eq_none_iff, List.find?_eq_none, decide_eq_true_eq,
    List.mem_map, not_exists, not_and]

theorem partitions_put (s : PartitionedStore) (key value : Bytes) :
    (s.put key value).2 = s ∨ ∃ p, (s.put key value).2 = s.setPartition s.selected p := by
  unfold put
  split
  · exact .inl rfl
  · exact .inr ⟨_, rfl⟩

/-- The partitions of epochs that are newer than the one that takes the writes. -/
def newer (s : PartitionedStore) : List (Epoch × MemoryStore) :=
  s.partitions.filter fun p => s.selected < p.1

/-- What the newer partitions answer goes before what the others have. -/
theorem get_eq (h : Ascending s.partitions) (key : Bytes) : s.get key =
    match search key s.newer.reverse with
    | .ok none => search key (s.partitions.filter fun p => p.1 ≤ s.selected).reverse
    | answer => answer := by
  have order : s.partitions.reverse =
      s.newer.reverse ++ (s.partitions.filter fun p => p.1 ≤ s.selected).reverse := by
    rw [← List.reverse_append]
    exact congrArg List.reverse (append_newer h s.selected).symm
  refine (congrArg (search key) order).trans ((search_append ..).trans ?_)
  rcases search key s.newer.reverse with e | _ | x <;> rfl

/-- What has been put is read, unless a newer partition answers first. -/
theorem get_put_self (h : Ascending s.partitions) {key value : Bytes}
    (taken : (s.put key value).1 = .ok ()) : (s.put key value).2.get key =
    match search key s.newer.reverse with
    | .ok none => .ok (some value)
    | answer => answer := by
  unfold put at taken ⊢
  split at taken
  · cases taken
  · next p chosen =>
    have opened : p.closed = false := by
      cases closed : p.closed with
      | true => simp [MemoryStore.put, closed] at taken
      | false => rfl
    have own : (p.put key value).2.get key = .ok (some value) := by
      rw [MemoryStore.table_put opened]
      simp [MemoryStore.get, opened, Table.get?_insert]
    have order : (s.setPartition s.selected (p.put key value).2).partitions.reverse =
        s.newer.reverse ++ (s.selected, (p.put key value).2) ::
          (s.partitions.filter fun q => q.1 < s.selected).reverse := by
      unfold setPartition newer
      simp [place_eq h]
    have found (older : List (Epoch × MemoryStore)) :
        search key ((s.selected, (p.put key value).2) :: older) = .ok (some value) := by
      rw [search, own]
    refine (congrArg (search key) order).trans ((search_append ..).trans ?_)
    rcases search key s.newer.reverse with e | _ | x
    · rfl
    · exact found _
    · rfl

theorem epochs_remove (s : PartitionedStore) (key : Bytes) : (s.remove key).2.epochs = s.epochs := by
  have all (l : List (Epoch × MemoryStore)) : (removeFrom key l).2.map Prod.fst = l.map Prod.fst := by
    induction l with
    | nil => rfl
    | cons q rest ih =>
      unfold removeFrom
      split
      · rfl
      · simp [ih]
  exact all s.partitions

theorem epochs_close (s : PartitionedStore) : s.close.2.epochs = s.epochs := by
  have all (answer : Except StoreError Unit) (l : List (Epoch × MemoryStore)) :
      (closeAll answer l).2.map Prod.fst = l.map Prod.fst := by
    induction l generalizing answer with
    | nil => rfl
    | cons q rest ih => simp [closeAll, ih]
  exact all (.ok ()) s.partitions

end PartitionedStore

/-! ## Stores of every kind -/

namespace Store

/-- The partitions of the store, if it has any, stand in ascending order. -/
def Ordered : Store → Prop
  | .partitioned s => PartitionedStore.Ascending s.partitions
  | _ => True

variable {s : Store}

theorem Ordered.put (h : s.Ordered) (disk : Disk) (key value : Bytes) :
    (s.put disk key value).2.1.Ordered := by
  cases s with
  | memory s => trivial
  | logged s => trivial
  | partitioned s =>
    show PartitionedStore.Ascending (s.put key value).2.partitions
    rcases s.partitions_put key value with same | ⟨p, same⟩
    · rw [same]
      exact h
    · rw [same]
      exact PartitionedStore.ascending_place h

theorem Ordered.remove (h : s.Ordered) (disk : Disk) (key : Bytes) :
    (s.remove disk key).2.1.Ordered := by
  cases s with
  | memory s => trivial
  | logged s => trivial
  | partitioned s => exact PartitionedStore.Ascending.of_epochs h (s.epochs_remove key)

theorem Ordered.close (h : s.Ordered) : s.close.2.Ordered := by
  cases s with
  | memory s => trivial
  | logged s => trivial
  | partitioned s => exact PartitionedStore.Ascending.of_epochs h s.epochs_close

theorem Ordered.selectEpoch (h : s.Ordered) (epoch : Epoch) : (s.selectEpoch epoch).Ordered := by
  cases s with
  | memory s => trivial
  | logged s => trivial
  | partitioned s => exact h

/-- A newer partition than the one that takes the puts answers first when the key is read. -/
def Shadows : Store → Bytes → Prop
  | .partitioned s, key => PartitionedStore.search key s.newer.reverse ≠ .ok none
  | _, _ => False

instance : (s : Store) → (key : Bytes) → Decidable (s.Shadows key)
  | .partitioned s, key =>
    inferInstanceAs (Decidable (PartitionedStore.search key s.newer.reverse ≠ .ok none))
  | .memory _, _ => inferInstanceAs (Decidable False)
  | .logged _, _ => inferInstanceAs (Decidable False)

/-- A put that succeeds is read, unless it is shadowed; then it changes nothing for readers. -/
theorem get_put_self (h : s.Ordered) {disk : Disk} {key value : Bytes}
    (taken : (s.put disk key value).1 = .ok ()) :
    (¬ s.Shadows key → (s.put disk key value).2.1.get key = .ok (some value)) ∧
      (s.Shadows key → (s.put disk key value).2.1.get key = s.get key) := by
  cases s with
  | memory s =>
    refine ⟨fun _ => ?_, False.elim⟩
    cases closed : s.closed with
    | true => simp [Store.put, MemoryStore.put, closed] at taken
    | false =>
      simp [Store.put, MemoryStore.table_put closed, Store.get, MemoryStore.get, closed,
        Table.get?_insert]
  | logged s =>
    refine ⟨fun _ => ?_, False.elim⟩
    cases log : s.log with
    | none => simp [Store.put, LoggedStore.put, LoggedStore.append, log] at taken
    | some id =>
      simp [Store.put, LoggedStore.put, LoggedStore.append, log, Store.get, LoggedStore.get,
        LogRecord.apply, Table.get?_insert]
  | partitioned s =>
    have after := PartitionedStore.get_put_self h taken
    have before := PartitionedStore.get_eq h key
    refine ⟨fun plain => ?_, fun shadowed => ?_⟩
    · have none_ : PartitionedStore.search key s.newer.reverse = .ok none := Classical.not_not.1 plain
      rw [none_] at after
      exact after
    · refine after.trans (Eq.trans ?_ before.symm)
      have some_ : PartitionedStore.search key s.newer.reverse ≠ .ok none := shadowed
      rcases hs : PartitionedStore.search key s.newer.reverse with e | _ | x
      · rfl
      · exact absurd hs some_
      · rfl

end Store

end TrieStorage
