import TrieStorage.Store.Kinds

/-!
# What a put does to a store

A put under one key leaves all other keys alone, and under its own key a reader
finds what he found before or the value put.  A store that takes one put takes
them all.
-/

namespace TrieStorage

/-! ## Stores in memory and on disk -/

namespace MemoryStore

theorem get_put (s : MemoryStore) (key value k : Bytes) :
    (s.put key value).2.get k = s.get k ∨
      k = key ∧ (s.put key value).2.get k = .ok (some value) := by
  unfold put
  split
  · exact .inl rfl
  · next opened =>
    simp only [get, Bool.not_eq_true] at opened ⊢
    rw [opened, Table.get?_insert]
    by_cases same : key = k
    · exact .inr ⟨same.symm, by simp [same]⟩
    · exact .inl (by simp [same])

theorem table_put {s : MemoryStore} (opened : s.closed = false) (key value : Bytes) :
    s.put key value =
      (.ok (), { s with table := s.table.insert key value, writes := s.writes + 1 }) := by
  simp only [put, opened, Bool.false_eq_true, if_false]

/-- Whether a write succeeds or not, what the store has under other keys stays. -/
theorem get?_put {s : MemoryStore} {key value k x : Bytes} (h : s.table.get? k = some x)
    (agree : k = key → x = value) : (s.put key value).2.table.get? k = some x := by
  unfold put
  split
  · exact h
  · rw [Table.get?_insert]
    split
    · next same => rw [agree same.symm]
    · exact h

end MemoryStore

namespace LoggedStore

theorem get_put (s : LoggedStore) (disk : Disk) (key value k : Bytes) :
    (s.put disk key value).2.1.get k = s.get k ∨
      k = key ∧ (s.put disk key value).2.1.get k = .ok (some value) := by
  unfold put append
  cases log : s.log with
  | none => exact .inl rfl
  | some id =>
    simp only [get, log, LogRecord.apply]
    rw [Table.get?_insert]
    by_cases same : key = k
    · exact .inr ⟨same.symm, by simp [same]⟩
    · exact .inl (by simp [same])

theorem get?_put {s : LoggedStore} {disk : Disk} {key value k x : Bytes}
    (h : s.table.get? k = some x) (agree : k = key → x = value) :
    (s.put disk key value).2.1.table.get? k = some x := by
  unfold put append
  cases s.log with
  | none => exact h
  | some id =>
    simp only [LogRecord.apply]
    rw [Table.get?_insert]
    split
    · next same => rw [agree same.symm]
    · exact h

end LoggedStore

/-! ## The store split by epoch -/

namespace PartitionedStore

/-- The partition of an epoch in a list, or a new one. -/
def current (epoch : Epoch) (l : List (Epoch × MemoryStore)) : MemoryStore :=
  ((l.find? fun p => p.1 = epoch).map Prod.snd).getD {}

theorem current_of_partitionForPut {s : PartitionedStore} {p : MemoryStore}
    (h : s.partitionForPut = .ok p) : p = current s.selected s.partitions := by
  unfold partitionForPut partition? at h
  unfold current
  split at h
  · next q found =>
    rw [found]
    exact (Except.ok.inj h).symm
  · next missing =>
    rw [missing]
    split at h
    · cases h
    · exact (Except.ok.inj h).symm

theorem search_append (key : Bytes) (a b : List (Epoch × MemoryStore)) :
    search key (a ++ b) =
      match search key a with
      | .ok none => search key b
      | answer => answer := by
  induction a with
  | nil => rfl
  | cons p rest ih =>
    rw [List.cons_append, search, search]
    rcases p.2.get key with e | _ | value
    · rfl
    · exact ih
    · rfl

/-- The oldest partition is asked last. -/
theorem search_reverse_cons (key : Bytes) (p : Epoch × MemoryStore)
    (l : List (Epoch × MemoryStore)) :
    search key (p :: l).reverse =
      match search key l.reverse with
      | .ok none => p.2.get key
      | answer => answer := by
  have last : search key [p] = p.2.get key := by
    simp only [search]
    rcases p.2.get key with e | _ | value <;> rfl
  rw [List.reverse_cons, search_append, last]

/-- Where nothing is found, the partition of any epoch has nothing. -/
theorem get_current_of_none {key : Bytes} {epoch : Epoch} {l : List (Epoch × MemoryStore)}
    (h : search key l.reverse = .ok none) : (current epoch l).get key = .ok none := by
  induction l with
  | nil => rfl
  | cons p rest ih =>
    rw [search_reverse_cons] at h
    have none : search key rest.reverse = .ok none := by
      rcases hs : search key rest.reverse with e | _ | value
      · rw [hs] at h
        cases h
      · rfl
      · rw [hs] at h
        cases h
    by_cases found : p.1 = epoch
    · rw [none] at h
      simpa [current, found] using h
    · simpa [current, found] using ih none

/-- Putting the partition of an epoch into its place changes what is found under
a key at most in the way it changes that partition. -/
theorem search_place {key : Bytes} {epoch : Epoch} {p : MemoryStore} {Q : Prop} {value : Bytes} :
    ∀ {l : List (Epoch × MemoryStore)},
      (p.get key = (current epoch l).get key ∨ Q ∧ p.get key = .ok (some value)) →
        search key (place epoch p l).reverse = search key l.reverse ∨
          Q ∧ search key (place epoch p l).reverse = .ok (some value)
  | [], changed => by
    rw [place, search_reverse_cons]
    exact changed
  | (e, q) :: rest, changed => by
    rw [place]
    split
    · -- a new partition in front of a newer one; what was found before is found first
      rw [search_reverse_cons]
      rcases hs : search key ((e, q) :: rest).reverse with err | _ | x
      · exact .inl rfl
      · rw [get_current_of_none hs] at changed
        exact changed
      · exact .inl rfl
    · split
      · next same =>
        have here : current epoch ((e, q) :: rest) = q := by simp [current, same]
        rw [here] at changed
        rw [search_reverse_cons, search_reverse_cons]
        rcases search key rest.reverse with err | _ | x
        · exact .inl rfl
        · exact changed
        · exact .inl rfl
      · next ne =>
        have later : current epoch ((e, q) :: rest) = current epoch rest := by
          simp [current, Ne.symm ne]
        rw [later] at changed
        rw [search_reverse_cons, search_reverse_cons]
        rcases search_place changed with same | ⟨hq, found⟩
        · rw [same]
          exact .inl rfl
        · rw [found]
          exact .inr ⟨hq, rfl⟩

theorem mem_place_self (epoch : Epoch) (p : MemoryStore) (l : List (Epoch × MemoryStore)) :
    (epoch, p) ∈ place epoch p l := by
  induction l with
  | nil => exact List.mem_singleton_self _
  | cons q rest ih =>
    rw [place]
    split
    · exact List.mem_cons_self
    · split
      · exact List.mem_cons_self
      · exact List.mem_cons_of_mem _ ih

/-- A partition stays in the list, unless it is the one that makes room. -/
theorem mem_place {epoch : Epoch} {p : MemoryStore} {q : Epoch × MemoryStore} :
    ∀ {l : List (Epoch × MemoryStore)}, q ∈ l → q ∈ place epoch p l ∨ q.2 = current epoch l
  | (e, r) :: rest, h => by
    rw [place]
    split
    · exact .inl (List.mem_cons_of_mem _ h)
    · split
      · next same =>
        rcases List.mem_cons.1 h with rfl | h
        · exact .inr (by simp [current, same])
        · exact .inl (List.mem_cons_of_mem _ h)
      · next ne =>
        have later : current epoch ((e, r) :: rest) = current epoch rest := by
          simp [current, Ne.symm ne]
        rcases List.mem_cons.1 h with rfl | h
        · exact .inl List.mem_cons_self
        · rw [later]
          exact (mem_place h).imp_left (List.mem_cons_of_mem _)

/-- What is in the list afterwards is the partition put there, or was in it before. -/
theorem of_mem_place {epoch : Epoch} {p : MemoryStore} {q : Epoch × MemoryStore}
    {l : List (Epoch × MemoryStore)} (mem : q ∈ place epoch p l) : q = (epoch, p) ∨ q ∈ l := by
  induction l with
  | nil => exact .inl (List.mem_singleton.1 mem)
  | cons r rest ih =>
    rw [place] at mem
    split at mem
    · exact List.mem_cons.1 mem
    · split at mem
      · exact (List.mem_cons.1 mem).imp_right (List.mem_cons_of_mem r)
      · rcases List.mem_cons.1 mem with rfl | later
        · exact .inr List.mem_cons_self
        · exact (ih later).imp_right (List.mem_cons_of_mem r)

theorem find?_place (epoch : Epoch) (p : MemoryStore) (l : List (Epoch × MemoryStore)) :
    (place epoch p l).find? (fun q => q.1 = epoch) = some (epoch, p) := by
  induction l with
  | nil => simp [place]
  | cons q rest ih =>
    rw [place]
    split
    · simp
    · split
      · simp
      · next ne => rw [List.find?_cons_of_neg (by simpa using Ne.symm ne), ih]

/-- The partition put into the selected place takes the next write. -/
theorem partitionForPut_setPartition (s : PartitionedStore) (p : MemoryStore) :
    (s.setPartition s.selected p).partitionForPut = .ok p := by
  unfold partitionForPut partition? setPartition
  dsimp only
  rw [find?_place]
  rfl

theorem get_put (s : PartitionedStore) (key value k : Bytes) :
    (s.put key value).2.get k = s.get k ∨
      k = key ∧ (s.put key value).2.get k = .ok (some value) := by
  unfold put
  split
  · exact .inl rfl
  · next p chosen =>
    have same := current_of_partitionForPut chosen
    have changed := p.get_put key value k
    rw [same] at changed ⊢
    exact search_place changed

end PartitionedStore

/-! ## Stores of every kind -/

namespace Store

/-- Whether a value is under a key; with partitions, in any of them. -/
def Holds (s : Store) (key value : Bytes) : Prop :=
  match s with
  | .memory s => s.table.get? key = some value
  | .logged s => s.table.get? key = some value
  | .partitioned s => ∃ p ∈ s.partitions, p.2.table.get? key = some value

instance (s : Store) (key value : Bytes) : Decidable (s.Holds key value) :=
  match s with
  | .memory s => inferInstanceAs (Decidable (s.table.get? key = some value))
  | .logged s => inferInstanceAs (Decidable (s.table.get? key = some value))
  | .partitioned s =>
    inferInstanceAs (Decidable (∃ p ∈ s.partitions, p.2.table.get? key = some value))

/-- Whether the store takes puts. -/
def Writable (s : Store) : Prop :=
  match s with
  | .memory s => s.closed = false
  | .logged s => s.log.isSome = true
  | .partitioned s => ∃ p, s.partitionForPut = .ok p ∧ p.closed = false

/-- A put changes at most what is found under its key, and only to its value. -/
theorem get_put (s : Store) (disk : Disk) (key value k : Bytes) :
    (s.put disk key value).2.1.get k = s.get k ∨
      k = key ∧ (s.put disk key value).2.1.get k = .ok (some value) := by
  cases s with
  | memory s => exact s.get_put key value k
  | logged s => exact s.get_put disk key value k
  | partitioned s => exact s.get_put key value k

/-- What a store holds it keeps, as long as nothing else is put under the key. -/
theorem Holds.put {s : Store} {disk : Disk} {key value k x : Bytes} (h : s.Holds k x)
    (agree : k = key → x = value) : (s.put disk key value).2.1.Holds k x := by
  cases s with
  | memory s => exact MemoryStore.get?_put h agree
  | logged s => exact LoggedStore.get?_put h agree
  | partitioned s =>
    obtain ⟨q, hq, h⟩ := h
    show ∃ p ∈ (s.put key value).2.partitions, p.2.table.get? k = some x
    unfold PartitionedStore.put
    split
    · exact ⟨q, hq, h⟩
    · next p chosen =>
      have same := PartitionedStore.current_of_partitionForPut chosen
      rcases PartitionedStore.mem_place hq with stays | replaced
      · exact ⟨q, stays, h⟩
      · refine ⟨_, PartitionedStore.mem_place_self .., ?_⟩
        rw [replaced, ← same] at h
        exact MemoryStore.get?_put h agree

/-- After a put that succeeds the value is there. -/
theorem holds_put {s : Store} {disk : Disk} {key value : Bytes}
    (h : (s.put disk key value).1 = .ok ()) : (s.put disk key value).2.1.Holds key value := by
  have inserted (table : Table) : (table.insert key value).get? key = some value := by
    rw [Table.get?_insert, if_pos rfl]
  cases s with
  | memory s =>
    cases closed : s.closed with
    | true => simp [put, MemoryStore.put, closed] at h
    | false => simp [put, MemoryStore.table_put closed, Holds, inserted]
  | logged s =>
    cases log : s.log with
    | none => simp [put, LoggedStore.put, LoggedStore.append, log] at h
    | some id => simp [put, LoggedStore.put, LoggedStore.append, log, Holds, LogRecord.apply, inserted]
  | partitioned s =>
    simp only [put, PartitionedStore.put] at h ⊢
    rcases chosen : s.partitionForPut with e | p
    · rw [chosen] at h
      cases h
    · rw [chosen] at h
      cases closed : p.closed with
      | true => simp [MemoryStore.put, closed] at h
      | false =>
        refine ⟨_, PartitionedStore.mem_place_self .., ?_⟩
        simp [MemoryStore.table_put closed, inserted]

/-- A store that takes puts takes this one, and the next. -/
theorem Writable.put {s : Store} (h : s.Writable) (disk : Disk) (key value : Bytes) :
    (s.put disk key value).1 = .ok () ∧ (s.put disk key value).2.1.Writable := by
  cases s with
  | memory s =>
    have closed : s.closed = false := h
    simp [Store.put, MemoryStore.table_put closed, Writable, closed]
  | logged s =>
    obtain ⟨id, log⟩ := Option.isSome_iff_exists.1 h
    simp [Store.put, LoggedStore.put, LoggedStore.append, log, Writable]
  | partitioned s =>
    obtain ⟨p, chosen, closed⟩ := h
    simp only [Store.put, PartitionedStore.put, chosen, MemoryStore.table_put closed]
    exact ⟨trivial, _, PartitionedStore.partitionForPut_setPartition .., closed⟩

end Store

end TrieStorage
