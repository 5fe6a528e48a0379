import TrieStorage.Proofs.Store.Partitions

/-!
# Partitions as one table

What readers of a store split by epoch find is one table: that of each partition over those of
the older ones.  While epochs move forward, which is to say while puts go to no partition older
than another, a put that succeeds does to this table what it does to any table.  A removal always
does, and a put that fails never does anything.
-/

namespace TrieStorage

namespace Table

/-- A table, with what another has under all other keys. -/
def above (upper lower : Table) : Table :=
  upper.entries.foldr (fun e table => table.insert e.1 e.2) lower

theorem get?_above (upper lower : Table) (key : Bytes) :
    (upper.above lower).get? key = (upper.get? key).or (lower.get? key) := by
  obtain ⟨entries⟩ := upper
  induction entries with
  | nil => rfl
  | cons e rest ih =>
    have step : (above ⟨e :: rest⟩ lower) = (above ⟨rest⟩ lower).insert e.1 e.2 := rfl
    have first : get? ⟨e :: rest⟩ key = if e.1 = key then some e.2 else get? ⟨rest⟩ key := rfl
    rw [step, first, get?_insert, ih]
    split <;> rfl

end Table

/-- A removal leaves all other keys alone. -/
theorem MemoryStore.get_remove_of_ne {s : MemoryStore} {key k : Bytes} (ne : k ≠ key) :
    (s.remove key).2.get k = s.get k := by
  unfold remove
  split
  · rfl
  · simp only [get, Table.get?_erase, if_neg (Ne.symm ne)]

namespace PartitionedStore

variable {s : PartitionedStore} {key value k : Bytes} {l : List (Epoch × MemoryStore)}

/-! ## Reading -/

/-- The tables of partitions, each over those before it. -/
def flatten : List (Epoch × MemoryStore) → Table
  | [] => Table.empty
  | p :: newer => (flatten newer).above p.2.table

/-- All that can be read. -/
def flat (s : PartitionedStore) : Table := flatten s.partitions

/-- No partition has been closed, and they are in order. -/
structure Open (s : PartitionedStore) : Prop where
  ascending : Ascending s.partitions
  opened : ∀ p ∈ s.partitions, p.2.closed = false

theorem search_of_opened (opened : ∀ p ∈ l, p.2.closed = false) (key : Bytes) :
    search key l.reverse = .ok ((flatten l).get? key) := by
  induction l with
  | nil => rfl
  | cons p newer ih =>
    have own : p.2.get key = .ok (p.2.table.get? key) := by
      simp [MemoryStore.get, opened p List.mem_cons_self]
    rw [search_reverse_cons, ih fun q mem => opened q (List.mem_cons_of_mem p mem), flatten,
      Table.get?_above]
    cases (flatten newer).get? key with
    | some value => rfl
    | none => exact own

theorem Open.get (h : s.Open) (key : Bytes) : s.get key = .ok (s.flat.get? key) :=
  search_of_opened h.opened key

/-! ## Removing -/

/-- A removal leaves all other keys alone, also where it fails on the way. -/
theorem get_remove_of_ne (ne : k ≠ key) : (s.remove key).2.get k = s.get k := by
  have all (l : List (Epoch × MemoryStore)) :
      search k (removeFrom key l).2.reverse = search k l.reverse := by
    induction l with
    | nil => rfl
    | cons p newer ih =>
      have own : (p.2.remove key).2.get k = p.2.get k := MemoryStore.get_remove_of_ne ne
      unfold removeFrom
      split
      · next e p' removed =>
        rw [removed] at own
        rw [search_reverse_cons, search_reverse_cons, own]
      · next p' removed =>
        rw [removed] at own
        simp only [search_reverse_cons, ih, own]
  exact all s.partitions

theorem removeFrom_of_opened (opened : ∀ p ∈ l, p.2.closed = false) (key : Bytes) :
    removeFrom key l =
      (.ok (), l.map fun p => (p.1, { p.2 with table := p.2.table.erase key })) := by
  induction l with
  | nil => rfl
  | cons p newer ih =>
    have own : p.2.remove key = (.ok (), { p.2 with table := p.2.table.erase key }) := by
      simp [MemoryStore.remove, opened p List.mem_cons_self]
    simp only [removeFrom, own, ih fun q mem => opened q (List.mem_cons_of_mem p mem),
      List.map_cons]

namespace Open

theorem remove (h : s.Open) (key : Bytes) :
    (s.remove key).1 = .ok () ∧ (s.remove key).2.Open ∧
      ∀ p ∈ (s.remove key).2.partitions, p.2.table.get? key = none := by
  have removed := removeFrom_of_opened h.opened key
  have after : (s.remove key).2.partitions =
      s.partitions.map fun p => (p.1, { p.2 with table := p.2.table.erase key }) :=
    congrArg Prod.snd removed
  refine ⟨congrArg Prod.fst removed, ⟨h.ascending.of_epochs (s.epochs_remove key), ?_⟩, ?_⟩
  all_goals
    intro p mem
    rw [after] at mem
    obtain ⟨q, old, rfl⟩ := List.mem_map.1 mem
  · exact h.opened q old
  · simp [Table.get?_erase]

/-- Where no partition has a key, nothing is read under it. -/
theorem get_of_none (h : s.Open) (none_ : ∀ p ∈ s.partitions, p.2.table.get? key = none) :
    s.get key = .ok none := by
  have all (l : List (Epoch × MemoryStore)) (none_ : ∀ p ∈ l, p.2.table.get? key = none) :
      (flatten l).get? key = none := by
    induction l with
    | nil => rfl
    | cons p newer ih =>
      rw [flatten, Table.get?_above, ih fun q mem => none_ q (List.mem_cons_of_mem p mem),
        none_ p List.mem_cons_self]
      rfl
  rw [h.get]
  exact congrArg Except.ok (all s.partitions none_)

theorem get_remove (h : s.Open) (key k : Bytes) :
    (s.remove key).2.get k = .ok ((s.flat.erase key).get? k) := by
  obtain ⟨-, still, gone⟩ := h.remove key
  rw [Table.get?_erase]
  by_cases own : key = k
  · subst own
    rw [if_pos rfl]
    exact still.get_of_none gone
  · rw [if_neg own, get_remove_of_ne (Ne.symm own), h.get]

/-! ## Putting -/

/-- A put that fails changes nothing, and it fails exactly if the selected partition is not
there and cannot be made. -/
theorem put_cases (h : s.Open) (key value : Bytes) :
    (∃ e, (s.selected ∉ s.epochs ∧ s.refuses s.selected = some e) ∧
      s.put key value = (.error e, s)) ∨
    ∃ p : MemoryStore, (s.selected ∈ s.epochs ∨ s.refuses s.selected = none) ∧
      p.closed = false ∧ s.put key value = (.ok (), s.setPartition s.selected p) := by
  unfold PartitionedStore.put partitionForPut
  cases found : s.partition? s.selected with
  | some p =>
    have mem := mem_of_partition? found
    have opened := h.opened _ mem
    refine .inr ⟨{ p with table := p.table.insert key value, writes := p.writes + 1 },
      .inl (List.mem_map.2 ⟨_, mem, rfl⟩), opened, ?_⟩
    simp only [MemoryStore.table_put opened]
  | none =>
    cases refused : s.refuses s.selected with
    | some e => exact .inl ⟨e, ⟨partition?_eq_none.1 found, rfl⟩, rfl⟩
    | none => exact .inr ⟨_, .inr rfl, rfl, rfl⟩

theorem put_eq_error (h : s.Open) {e : StoreError} :
    (s.put key value).1 = .error e ↔ s.selected ∉ s.epochs ∧ s.refuses s.selected = some e := by
  rcases h.put_cases key value with ⟨e', ⟨missing, refused⟩, same⟩ | ⟨p, makes, -, same⟩
  · simp [same, missing, refused]
  · rw [same]
    refine iff_of_false nofun fun ⟨missing, refused⟩ => ?_
    rw [refused] at makes
    exact makes.elim missing nofun

theorem put_of_error (h : s.Open) {e : StoreError} (failed : (s.put key value).1 = .error e) :
    (s.put key value).2 = s := by
  rcases h.put_cases key value with ⟨e', -, same⟩ | ⟨p, -, -, same⟩
  · rw [same]
  · rw [same] at failed
    cases failed

theorem put (h : s.Open) (key value : Bytes) : (s.put key value).2.Open := by
  rcases h.put_cases key value with ⟨e, -, same⟩ | ⟨p, -, opened, same⟩
  · rw [same]
    exact h
  · rw [same]
    refine ⟨ascending_place h.ascending, fun q mem => ?_⟩
    rcases of_mem_place mem with rfl | old
    · exact opened
    · exact h.opened q old

/-- Where no partition is newer than the selected one, a put that succeeds is read at once. -/
theorem get_put (h : s.Open) (newest : ∀ epoch ∈ s.epochs, epoch ≤ s.selected)
    (taken : (s.put key value).1 = .ok ()) (k : Bytes) :
    (s.put key value).2.get k = .ok ((s.flat.insert key value).get? k) := by
  rw [Table.get?_insert]
  by_cases own : key = k
  · subst own
    have none_ : s.newer = [] := List.filter_eq_nil_iff.2 fun p mem => by
      simpa using newest p.1 (List.mem_map_of_mem mem)
    rw [if_pos rfl, get_put_self h.ascending taken, none_]
    rfl
  · rw [if_neg own, ← h.get k]
    exact (s.get_put key value k).resolve_right fun other => own other.1.symm

end Open

/-! ## Runs -/

/-- What is done to a store split by epoch, or to what makes its partitions.  Reading a value
changes nothing, so it is not among these. -/
inductive Use where
  | select (epoch : Epoch)
  | put (key value : Bytes)
  | remove (key : Bytes)
  /-- From now on partitions cannot be made for other epochs than before. -/
  | refuse (refuses : Epoch → Option StoreError)

def use (s : PartitionedStore) : Use → PartitionedStore
  | .select epoch => s.select epoch
  | .put key value => (s.put key value).2
  | .remove key => (s.remove key).2
  | .refuse refuses => { s with refuses }

def run (s : PartitionedStore) (uses : List Use) : PartitionedStore := uses.foldl use s

/-- No put is made while the selected epoch is below one that has a partition. -/
def Forward (s : PartitionedStore) : List Use → Prop
  | [] => True
  | .put key value :: rest =>
    (∀ epoch ∈ s.epochs, epoch ≤ s.selected) ∧ (s.use (.put key value)).Forward rest
  | u :: rest => (s.use u).Forward rest

/-- What a use of the store does to a table: puts that the store has taken are made, and all
removals. -/
def note (s : PartitionedStore) (table : Table) : Use → Table
  | .put key value =>
    match (s.put key value).1 with
    | .ok () => table.insert key value
    | .error _ => table
  | .remove key => table.erase key
  | .select _ | .refuse _ => table

/-- A table after what has been done to the store is done to it. -/
def noteAll (s : PartitionedStore) (table : Table) : List Use → Table
  | [] => table
  | u :: rest => (s.use u).noteAll (s.note table u) rest

/-- A store that is open and a table in which the same is found. -/
structure Shows (s : PartitionedStore) (table : Table) : Prop where
  isOpen : s.Open
  get : ∀ key, s.get key = .ok (table.get? key)

theorem Open.shows (h : s.Open) : s.Shows s.flat := ⟨h, h.get⟩

namespace Shows

variable {table : Table}

theorem flat (h : s.Shows table) (key : Bytes) : s.flat.get? key = table.get? key :=
  Except.ok.inj ((h.isOpen.get key).symm.trans (h.get key))

theorem put (h : s.Shows table) (newest : ∀ epoch ∈ s.epochs, epoch ≤ s.selected)
    (key value : Bytes) : (s.use (.put key value)).Shows (s.note table (.put key value)) := by
  refine ⟨h.isOpen.put key value, fun k => ?_⟩
  rcases answer : (s.put key value).1 with e | ⟨⟩
  · simp only [use, note, answer, h.isOpen.put_of_error answer]
    exact h.get k
  · simp only [use, note, answer, h.isOpen.get_put newest answer, Table.get?_insert, h.flat]

theorem remove (h : s.Shows table) (key : Bytes) :
    (s.use (.remove key)).Shows (s.note table (.remove key)) := by
  refine ⟨(h.isOpen.remove key).2.1, fun k => ?_⟩
  refine (h.isOpen.get_remove key k).trans (congrArg Except.ok ?_)
  simp only [note, Table.get?_erase, h.flat]

theorem run (h : s.Shows table) {uses : List Use} (forward : s.Forward uses) :
    (s.run uses).Shows (s.noteAll table uses) := by
  induction uses generalizing s table with
  | nil => exact h
  | cons u rest ih =>
    cases u with
    | put key value => exact ih (h.put forward.1 key value) forward.2
    | remove key => exact ih (h.remove key) forward
    | select epoch => exact ih (s := s.select epoch) ⟨⟨h.isOpen.ascending, h.isOpen.opened⟩, h.get⟩ forward
    | refuse refuses =>
      exact ih (s := { s with refuses }) ⟨⟨h.isOpen.ascending, h.isOpen.opened⟩, h.get⟩ forward

end Shows

/-- While epochs move forward, readers of an open store cannot tell it from one table to which
the puts that succeeded and all removals are made, whatever partitions can be made and when.  A
removal then succeeds and leaves the key in no partition.  A put fails only for want of a
partition that cannot be made, and then it makes none and changes nothing for readers. -/
theorem forward_reads_as_table (opened : s.Open) {uses : List Use} (forward : s.Forward uses) :
    (∀ key, (s.run uses).get key = .ok ((s.noteAll s.flat uses).get? key)) ∧
    (∀ key, ((s.run uses).remove key).1 = .ok () ∧
      ((s.run uses).remove key).2.get key = .ok none ∧
      ∀ p ∈ ((s.run uses).remove key).2.partitions, p.2.table.get? key = none) ∧
    ∀ key value e,
      (((s.run uses).put key value).1 = .error e ↔
        (s.run uses).selected ∉ (s.run uses).epochs ∧
          (s.run uses).refuses (s.run uses).selected = some e) ∧
      (((s.run uses).put key value).1 = .error e →
        ((s.run uses).put key value).2.epochs = (s.run uses).epochs ∧
          ∀ k, ((s.run uses).put key value).2.get k = (s.run uses).get k) := by
  have after := opened.shows.run forward
  refine ⟨after.get, fun key => ?_, fun key value e => ⟨after.isOpen.put_eq_error, fun failed => ?_⟩⟩
  · obtain ⟨done, still, gone⟩ := after.isOpen.remove key
    exact ⟨done, still.get_of_none gone, gone⟩
  · rw [after.isOpen.put_of_error failed]
    exact ⟨rfl, fun _ => rfl⟩

/-- A partition that cannot be made at first is made later; a key is in two partitions, and is
removed. -/
def forwardUses : List Use :=
  [.put [1] [10], .put [2] [20], .refuse fun _ => some .io, .select 3, .put [1] [11],
    .refuse fun _ => none, .put [2] [21], .put [3] [30], .remove [2], .refuse fun _ => some .io,
    .select 4]

/-- The put that failed is not read, and neither is the key that was removed from both
partitions; a put for the next epoch fails. -/
theorem forwardUses_read_as_table : (run {} forwardUses).epochs = [0, 3] ∧
    (run {} forwardUses).get [1] = .ok (some [10]) ∧ (run {} forwardUses).get [2] = .ok none ∧
    (run {} forwardUses).get [3] = .ok (some [30]) ∧
    ((run {} forwardUses).put [1] [12]).1 = .error .io ∧
    ((run {} forwardUses).put [1] [12]).2.get [1] = .ok (some [10]) := by
  have opened : Open {} := ⟨List.Pairwise.nil, nofun⟩
  have forward : Forward {} forwardUses :=
    ⟨by decide, by decide, by decide, by decide, by decide, trivial⟩
  obtain ⟨reads, -, puts⟩ := forward_reads_as_table opened forward
  obtain ⟨fails, unchanged⟩ := puts [1] [12] .io
  have failed := fails.2 ⟨by decide, rfl⟩
  refine ⟨rfl, reads [1], reads [2], reads [3], failed, ?_⟩
  rw [(unchanged failed).2 [1], reads [1]]
  rfl

end PartitionedStore

end TrieStorage
