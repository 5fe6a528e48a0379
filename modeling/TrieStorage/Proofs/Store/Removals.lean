import TrieStorage.Proofs.Store.Flat

/-!
# Removals that fail

A store in memory, or one with a log, that fails to remove a key is as it was.  One that is split
by epoch goes through its partitions, oldest first, and stops at the first that fails: those
before it have lost the key, and it and the newer ones are as they were.  As readers ask the
newest partition first, no key reads differently then except, if neither that partition nor a
newer one has an answer for it, the one that was to be removed.  A closed partition does have an
answer, so this is never seen with partitions in memory.
-/

namespace TrieStorage

/-- What partitions of some kind are asked for. -/
structure PartitionKind (π : Type) where
  get : π → Bytes → Except StoreError (Option Bytes)
  remove : π → Bytes → Except StoreError Unit × π

namespace PartitionKind

variable {π : Type}

/-- The first value or failure in a list of partitions. -/
def search (kind : PartitionKind π) (key : Bytes) : List π → Except StoreError (Option Bytes)
  | [] => .ok none
  | p :: rest =>
    match kind.get p key with
    | .error e => .error e
    | .ok (some value) => .ok (some value)
    | .ok none => search kind key rest

/-- Drops a key from partition after partition, up to the first failure. -/
def removeFrom (kind : PartitionKind π) (key : Bytes) : List π → Except StoreError Unit × List π
  | [] => (.ok (), [])
  | p :: rest =>
    match kind.remove p key with
    | (.error e, p) => (.error e, p :: rest)
    | (.ok (), p) => ((removeFrom kind key rest).1, p :: (removeFrom kind key rest).2)

/-- A removal that fails changes no answer; one that succeeds changes that of the key at most, and
leaves no value under it. -/
structure Lawful (kind : PartitionKind π) : Prop where
  failed : ∀ {p : π} {key : Bytes} {e : StoreError}, (kind.remove p key).1 = .error e →
    ∀ k, kind.get (kind.remove p key).2 k = kind.get p k
  others : ∀ {p : π} {key : Bytes}, (kind.remove p key).1 = .ok () →
    ∀ k, k ≠ key → kind.get (kind.remove p key).2 k = kind.get p k
  gone : ∀ {p : π} {key value : Bytes}, (kind.remove p key).1 = .ok () →
    kind.get (kind.remove p key).2 key ≠ .ok (some value)

variable {kind : PartitionKind π} {key k : Bytes} {ps : List π} {e : StoreError}

theorem search_append (key : Bytes) (front back : List π) :
    kind.search key (front ++ back) =
      match kind.search key front with
      | .ok none => kind.search key back
      | answer => answer := by
  fun_induction search kind key front with
  | case1 => rfl
  | case2 p rest e own => simp only [List.cons_append, search, own]
  | case3 p rest value own => simp only [List.cons_append, search, own]
  | case4 p rest own ih => simp only [List.cons_append, search, own, ih]

/-- Answers that are the same in front lead to the same answer. -/
theorem search_congr {front front' back back' : List π}
    (same : kind.search k front' = kind.search k front)
    (behind : kind.search k front = .ok none → kind.search k back' = kind.search k back) :
    kind.search k (front' ++ back') = kind.search k (front ++ back) := by
  rw [search_append, search_append, same]
  split
  · next none_ => exact behind none_
  · rfl

/-- A removal that fails stops at a partition: those before it have lost the key. -/
theorem removeFrom_of_error (failed : (kind.removeFrom key ps).1 = .error e) :
    ∃ older p newer, ps = older ++ p :: newer ∧ (kind.remove p key).1 = .error e ∧
      (∀ q ∈ older, (kind.remove q key).1 = .ok ()) ∧
      (kind.removeFrom key ps).2 =
        older.map (fun q => (kind.remove q key).2) ++ (kind.remove p key).2 :: newer := by
  fun_induction removeFrom kind key ps with
  | case1 => cases failed
  | case2 p rest e' p' own =>
    cases failed
    exact ⟨[], p, rest, rfl, by rw [own], by simp, by rw [own]; rfl⟩
  | case3 p rest p' own ih =>
    obtain ⟨older, q, newer, rfl, stops, all, left⟩ := ih failed
    refine ⟨p :: older, q, newer, rfl, stops, List.forall_mem_cons.2 ⟨by rw [own], all⟩, ?_⟩
    rw [left, List.map_cons, List.cons_append, own]

theorem search_map {f : π → π} (same : ∀ p ∈ ps, kind.get (f p) k = kind.get p k) :
    kind.search k (ps.map f) = kind.search k ps := by
  induction ps with
  | nil => rfl
  | cons p rest ih =>
    obtain ⟨own, later⟩ := List.forall_mem_cons.1 same
    rw [List.map_cons, search, search, own, ih later]

theorem search_ne_some {value : Bytes} (none_ : ∀ p ∈ ps, kind.get p key ≠ .ok (some value)) :
    kind.search key ps ≠ .ok (some value) := by
  fun_induction search kind key ps with
  | case1 => simp
  | case2 => simp
  | case3 p rest v own =>
    have first := none_ p List.mem_cons_self
    rwa [own] at first
  | case4 p rest own ih => exact ih fun q mem => none_ q (List.mem_cons_of_mem p mem)

/-- After a removal that fails all other keys read as before.  So does the key, if the partition
that failed or a newer one has an answer for it; otherwise no value is read under it. -/
theorem search_of_error (lawful : kind.Lawful) (failed : (kind.removeFrom key ps).1 = .error e) :
    ∃ older p newer, ps = older ++ p :: newer ∧ (kind.remove p key).1 = .error e ∧
      (∀ k, k ≠ key → kind.search k (kind.removeFrom key ps).2.reverse =
        kind.search k ps.reverse) ∧
      (kind.search key (p :: newer).reverse ≠ .ok none →
        kind.search key (kind.removeFrom key ps).2.reverse = kind.search key ps.reverse) ∧
      (kind.search key (p :: newer).reverse = .ok none →
        ∀ value, kind.search key (kind.removeFrom key ps).2.reverse ≠ .ok (some value)) := by
  obtain ⟨older, p, newer, rfl, stops, all, left⟩ := removeFrom_of_error failed
  have front (k : Bytes) : kind.search k ((kind.remove p key).2 :: newer).reverse =
      kind.search k (p :: newer).reverse := by
    rw [List.reverse_cons, List.reverse_cons]
    refine search_congr rfl fun _ => ?_
    simp only [search, lawful.failed stops k]
  refine ⟨older, p, newer, rfl, stops, fun k ne => ?_, fun some_ => ?_, fun none_ value => ?_⟩
  all_goals rw [left, List.reverse_append]
  · rw [List.reverse_append]
    refine search_congr (front k) fun _ => ?_
    rw [← List.map_reverse]
    exact search_map fun q mem => lawful.others (all q (List.mem_reverse.1 mem)) k ne
  · rw [List.reverse_append]
    exact search_congr (front key) fun none_ => absurd none_ some_
  · rw [search_append, front key, none_]
    refine search_ne_some fun q mem => ?_
    obtain ⟨q, old, rfl⟩ := List.mem_map.1 (List.mem_reverse.1 mem)
    exact lawful.gone (all q old)

end PartitionKind

/-! ## Partitions in memory -/

namespace MemoryStore

/-- Stores in memory as partitions. -/
def kind : PartitionKind MemoryStore := ⟨get, remove⟩

variable {s : MemoryStore} {key k : Bytes} {e : StoreError}

theorem remove_eq_error (failed : (s.remove key).1 = .error e) :
    s.closed = true ∧ (s.remove key).2 = s := by
  unfold remove at failed ⊢
  split at failed
  · next shut =>
    rw [if_pos shut]
    exact ⟨shut, rfl⟩
  · cases failed

theorem lawful_kind : kind.Lawful where
  failed := by
    intro p key e failed k
    exact congrArg (get · k) (remove_eq_error failed).2
  others := fun _ _ ne => get_remove_of_ne ne
  gone := by
    intro p key value taken
    unfold kind remove at taken ⊢
    dsimp only at taken ⊢
    split at taken
    · cases taken
    · next opened =>
      rw [if_neg opened]
      simp [get, opened, Table.get?_erase]

end MemoryStore

namespace PartitionedStore

variable {s : PartitionedStore} {key k : Bytes} {e : StoreError}

theorem search_eq (key : Bytes) (l : List (Epoch × MemoryStore)) :
    search key l = MemoryStore.kind.search key (l.map Prod.snd) := by
  fun_induction search key l with
  | case1 => rfl
  | case2 epoch p rest e own =>
    simp only [List.map_cons, PartitionKind.search, MemoryStore.kind, own]
  | case3 epoch p rest value own =>
    simp only [List.map_cons, PartitionKind.search, MemoryStore.kind, own]
  | case4 epoch p rest own ih =>
    simp only [List.map_cons, PartitionKind.search, MemoryStore.kind, own]
    exact ih

theorem removeFrom_eq (key : Bytes) (l : List (Epoch × MemoryStore)) :
    (removeFrom key l).1 = (MemoryStore.kind.removeFrom key (l.map Prod.snd)).1 ∧
      (removeFrom key l).2.map Prod.snd =
        (MemoryStore.kind.removeFrom key (l.map Prod.snd)).2 := by
  fun_induction removeFrom key l with
  | case1 => exact ⟨rfl, rfl⟩
  | case2 epoch p rest e p' own =>
    simp [PartitionKind.removeFrom, MemoryStore.kind, own]
  | case3 epoch p rest p' own answer rest' left ih =>
    rw [left] at ih
    simp only [List.map_cons, PartitionKind.removeFrom, MemoryStore.kind, own]
    exact ⟨ih.1, congrArg (p' :: ·) ih.2⟩

/-- A closed partition answers with its failure, so the older ones are not asked. -/
theorem get_remove_of_error (failed : (s.remove key).1 = .error e) (k : Bytes) :
    (s.remove key).2.get k = s.get k := by
  obtain ⟨answers, lefts⟩ := removeFrom_eq key s.partitions
  obtain ⟨older, p, newer, -, stops, others, own, -⟩ :=
    PartitionKind.search_of_error MemoryStore.lawful_kind (answers.symm.trans failed)
  have read (k : Bytes) : (s.remove key).2.get k =
      MemoryStore.kind.search k (MemoryStore.kind.removeFrom key
        (s.partitions.map Prod.snd)).2.reverse := by
    rw [← lefts, ← List.map_reverse]
    exact search_eq k _
  have before (k : Bytes) : s.get k =
      MemoryStore.kind.search k (s.partitions.map Prod.snd).reverse := by
    rw [← List.map_reverse]
    exact search_eq k _
  rw [read, before]
  by_cases same : k = key
  · subst same
    refine own fun none_ => ?_
    have shut : MemoryStore.kind.get p k = .error .closed :=
      if_pos (MemoryStore.remove_eq_error stops).1
    rw [List.reverse_cons, PartitionKind.search_append] at none_
    split at none_
    · simp [PartitionKind.search, shut] at none_
    · next some_ => exact some_ none_
  · exact others k same

end PartitionedStore

/-- A store that fails to remove a key answers as before. -/
theorem Store.get_remove_of_error {s : Store} {disk : Disk} {key : Bytes} {e : StoreError}
    (failed : (s.remove disk key).1 = .error e) (k : Bytes) :
    (s.remove disk key).2.1.get k = s.get k := by
  cases s with
  | memory s => exact congrArg (MemoryStore.get · k) (MemoryStore.remove_eq_error failed).2
  | logged s =>
    unfold Store.remove LoggedStore.remove LoggedStore.append at failed ⊢
    dsimp only at failed ⊢
    split at failed
    · rfl
    · cases failed
  | partitioned s => exact PartitionedStore.get_remove_of_error failed k

end TrieStorage
