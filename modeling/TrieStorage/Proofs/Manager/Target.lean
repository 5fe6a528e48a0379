import TrieStorage.Proofs.Manager.Generations
import TrieStorage.Proofs.Walk.Solo
import TrieStorage.Proofs.Walk.Trie

/-!
# Where a snapshot goes

While the old layout may grow, a snapshot makes a generation, and the oldest
ones are dropped before it reads anything.  What it then reads is what was there
before, except for what only a dropped generation had.
-/

namespace TrieStorage

namespace Vault

/-- Whether the next generation can be made: its store can be opened, and its
layer refuses nothing. -/
structure CanGrow (v : Vault) (root : String) (opener : Opener) : Prop where
  opens : ∃ store disk,
    opener.openAt v.storage.disk (Generation.pathOf root v.legacy.nextId) = (.ok store, disk)
  free : ∀ call key, v.storage.refusals.refuse (v.legacy.nextName root) call key = false

/-- The layers that are read before any generation. -/
def frontOrder : List LayerId := [.main, .checkpoints, .db]

/-- The layers that are read now and once the next generation has been made, its
own apart. -/
def lastingOrder (v : Vault) : List LayerId :=
  frontOrder ++ (v.legacy.lasting v.retention).reverse.map Generation.layer

/-- Whether something is found under a key that is still read once the next
generation has been made. -/
def Outlasts (v : Vault) (key : Bytes) : Prop :=
  ∃ id ∈ v.lastingOrder, (v.storage.peek id key).isSome

/-- Whether the next generation comes with nothing but `value` under a key: it has
the mark of an active store, and what its store is opened with. -/
def Agrees (v : Vault) (root : String) (opener : Opener) (key value : Bytes) : Prop :=
  if key = activeKey then value = activeValue
  else ∀ store disk x, opener.openAt v.storage.disk (Generation.pathOf root v.legacy.nextId) =
    (.ok store, disk) → store.get key = .ok (some x) → x = value

/-- Whether the store of the next generation comes with nothing under a key. -/
def Blank (v : Vault) (root : String) (opener : Opener) (key : Bytes) : Prop :=
  ∀ store disk, opener.openAt v.storage.disk (Generation.pathOf root v.legacy.nextId) =
    (.ok store, disk) → store.get key = .ok none

/-- The generation that a snapshot goes to. -/
def next (v : Vault) (root : String) : Generation := v.legacy.next root v.storage

section

variable {v : Vault} {root : String} {opener : Opener}

/-- A snapshot makes the next generation. -/
theorem snapshotStore_made (arranged : v.Arranged) (grows : v.growth? = some (root, opener))
    (can : v.CanGrow root opener) : v.snapshotStore.1 = .ok (v.next root).layer ∧
      ∃ store disk,
        opener.openAt v.storage.disk (Generation.pathOf root v.legacy.nextId) = (.ok store, disk) ∧
        v.legacy.Made root store disk v.retention v.storage v.snapshotStore.2.legacy
          v.snapshotStore.2.storage := by
  obtain ⟨store, disk, opening⟩ := can.opens
  have made : (v.legacy.create root opener v.retention v.storage).1 = .ok (v.next root).layer :=
    Legacy.create_of_openAt can.free opening
  have same : v.snapshotStore = ((v.legacy.create root opener v.retention v.storage).1,
      { v with
        legacy := (v.legacy.create root opener v.retention v.storage).2.1
        storage := (v.legacy.create root opener v.retention v.storage).2.2 }) := by
    simp only [snapshotStore, grows]
  rw [same]
  rcases created : v.legacy.create root opener v.retention v.storage with ⟨answer, l', s'⟩
  rw [created] at made
  obtain rfl : answer = _ := made
  exact ⟨rfl, (Legacy.create_eq_ok arranged.pos arranged.legacy created).2⟩

theorem scheme_snapshotStore (v : Vault) : v.snapshotStore.2.scheme = v.scheme := by
  unfold snapshotStore
  split <;> rfl

/-- The layer that has been made is active, and takes puts. -/
theorem snapshotStore_ready (arranged : v.Arranged) (grows : v.growth? = some (root, opener))
    (can : v.CanGrow root opener) : v.snapshotStore.2.isActive (v.next root).layer = true ∧
      v.snapshotStore.2.Accepts (v.next root).layer := by
  obtain ⟨-, store, disk, opening, made⟩ := snapshotStore_made arranged grows can
  have accepts : Layer.Accepts { name := v.legacy.nextName root, store } v.storage.refusals :=
    ⟨fun key => can.free .put (some key), Opener.writable_openAt opening⟩
  refine ⟨?_, _, made.layer, ?_⟩
  · have found := made.layer
    have read : v.snapshotStore.2.storage.get (v.next root).layer activeKey =
        .ok (some activeValue) := by
      unfold Storage.get
      rw [show v.snapshotStore.2.storage.layer? (v.next root).layer = _ from made.layer]
      simp only [made.refusals, Layer.get, Layer.put, can.free, Bool.false_eq_true, if_false]
      exact Opener.get_put_openAt opening disk activeKey activeValue
    unfold isActive
    rw [read]
    exact decide_eq_true rfl
  · rw [made.refusals]
    exact (accepts.put disk activeKey activeValue).2

/-- A snapshot goes to the next generation. -/
theorem target_snapshot (arranged : v.Arranged) (grows : v.growth? = some (root, opener))
    (can : v.CanGrow root opener) :
    v.target .snapshot = (.ok (some (v.next root).layer), v.snapshotStore.2) := by
  obtain ⟨chosen, -⟩ := snapshotStore_made arranged grows can
  obtain ⟨active, -⟩ := snapshotStore_ready arranged grows can
  simp [target, chosen, Except.map, active]

/-- A snapshot fails to make a generation, which changes nothing that is open, or
it makes the next one. -/
theorem snapshotStore_cases (arranged : v.Arranged) (grows : v.growth? = some (root, opener)) :
    (v.snapshotStore.2.legacy = v.legacy ∧ v.storage.Grows v.snapshotStore.2.storage) ∨
    ∃ store disk,
      opener.openAt v.storage.disk (Generation.pathOf root v.legacy.nextId) = (.ok store, disk) ∧
      v.legacy.Made root store disk v.retention v.storage v.snapshotStore.2.legacy
        v.snapshotStore.2.storage := by
  simp only [snapshotStore, grows]
  rcases created : v.legacy.create root opener v.retention v.storage with ⟨e | id, l', s'⟩
  · rcases Legacy.create_cases created with ⟨-, -, same, kept⟩ | ⟨_, _, -, -, answer, -, -⟩
    · exact .inl ⟨same, kept⟩
    · cases answer
  · exact .inr (Legacy.create_eq_ok arranged.pos arranged.legacy created).2

/-! ## Reading afterwards -/

theorem readOrder_of_usable (usable : v.legacy.usable = true) :
    v.readOrder = frontOrder ++ v.legacy.generations.reverse.map Generation.layer := by
  simp [readOrder, frontOrder, Legacy.readOrder, usable]

/-- The generations that will be dropped are read last. -/
theorem readOrder_eq_lasting (usable : v.legacy.usable = true) :
    v.readOrder = v.lastingOrder ++
      (v.legacy.fading v.retention).reverse.map Generation.layer := by
  rw [readOrder_of_usable usable, lastingOrder, List.append_assoc, ← List.map_append,
    ← List.reverse_append, Legacy.fading, Legacy.lasting, List.take_append_drop]

/-- The layers that are read have been opened. -/
theorem Arranged.isSome_layer? (arranged : v.Arranged) {id : LayerId} (read : id ∈ v.readOrder) :
    (v.storage.layer? id).isSome := by
  unfold readOrder Legacy.readOrder at read
  simp only [List.mem_cons] at read
  rcases read with rfl | rfl | read
  · rfl
  · rfl
  · split at read
    · rcases List.mem_cons.1 read with rfl | read
      · rfl
      · obtain ⟨g, hg, rfl⟩ := List.mem_map.1 read
        obtain ⟨serial, lt, same⟩ := arranged.legacy.known g (List.mem_reverse.1 hg)
        rw [same]
        simp [Storage.layer?, lt]
    · cases read

section Made

variable {store : Store} {disk : Disk} {v' : Vault}

/-- A layer that lasts has been opened before, and no generation that is dropped
shares it. -/
theorem peek_made (arranged : v.Arranged) (usable : v.legacy.usable = true)
    (made : v.legacy.Made root store disk v.retention v.storage v'.legacy v'.storage)
    {id : LayerId} (lasts : id ∈ v.lastingOrder) (key : Bytes) :
    v'.storage.peek id key = v.storage.peek id key := by
  have distinct := arranged.legacy.distinct
  have known : (v.storage.layer? id).isSome := by
    refine arranged.isSome_layer? ?_
    rw [readOrder_eq_lasting usable]
    exact List.mem_append_left _ lasts
  refine Storage.peek_congr (made.spared id known ?_) made.refusals key
  intro gone
  obtain ⟨g, hg, same⟩ := List.mem_map.1 gone
  rcases List.mem_append.1 lasts with front | lasting
  · obtain ⟨serial, -, layer⟩ := arranged.legacy.known g (List.mem_of_mem_take hg)
    rw [← same, layer] at front
    simp [frontOrder] at front
  · rw [← List.take_append_drop (v.legacy.generations.length + 1 - v.retention.max)
      v.legacy.generations, List.map_append, List.nodup_append] at distinct
    obtain ⟨g', hg', same'⟩ := List.mem_map.1 lasting
    exact distinct.2.2 _ gone id (List.mem_map.2 ⟨g', List.mem_reverse.1 hg', same'⟩) rfl

/-- What the new generation has: the mark, and what its store was opened with. -/
theorem peek_made_next
    (opening : opener.openAt v.storage.disk (Generation.pathOf root v.legacy.nextId) =
      (.ok store, disk))
    (made : v.legacy.Made root store disk v.retention v.storage v'.legacy v'.storage)
    {key x : Bytes} (found : v'.storage.peek (v.next root).layer key = some x) :
    if key = activeKey then x = activeValue else store.get key = .ok (some x) := by
  unfold Storage.peek Storage.get at found
  rw [show v'.storage.layer? (v.next root).layer = _ from made.layer, made.refusals] at found
  dsimp only at found
  have value : (Layer.put { name := v.legacy.nextName root, store } v.storage.refusals disk
      activeKey activeValue).2.1.get v.storage.refusals key = .ok (some x) := by
    split at found
    · next y same =>
      split at found
      · cases found
      · rw [same, Option.some.inj found]
    · cases found
    · cases found
  have marked := made.marked
  unfold Layer.put at value marked
  dsimp only at value marked
  split at marked
  · cases marked
  · next free =>
    rw [if_neg free] at value
    unfold Layer.get at value
    dsimp only at value
    split at value
    · cases value
    · by_cases own : key = activeKey
      · rw [if_pos own]
        rw [own, Opener.get_put_openAt opening] at value
        cases value
        rfl
      · rw [if_neg own]
        rcases store.get_put disk activeKey activeValue key with same | ⟨same, -⟩
        · rw [← same]
          exact value
        · exact absurd same own

/-- What is read once a generation has been made: first what is read before any
generation, then what it came with, then the generations that are left. -/
theorem lookup_made (arranged : v.Arranged) (usable : v.legacy.usable = true)
    (made : v.legacy.Made root store disk v.retention v.storage v'.legacy v'.storage)
    (key : Bytes) : v'.lookup key =
      (frontOrder.findSome? fun id => v.storage.peek id key).or
        ((v'.storage.peek (v.next root).layer key).or
          (((v.legacy.lasting v.retention).reverse.map Generation.layer).findSome? fun id =>
            v.storage.peek id key)) := by
  have order : v'.readOrder = frontOrder ++ [(v.next root).layer] ++
      (v.legacy.lasting v.retention).reverse.map Generation.layer := by
    rw [readOrder_of_usable (made.usable.trans usable), made.generations, List.reverse_append,
      List.append_assoc]
    rfl
  have same {ids : List LayerId} (last : ∀ id ∈ ids, id ∈ v.lastingOrder) :
      ids.findSome? (fun id => v'.storage.peek id key) =
        ids.findSome? fun id => v.storage.peek id key := by
    rw [← List.head?_filterMap, ← List.head?_filterMap]
    refine congrArg List.head? (List.filterMap_congr fun id mem => ?_)
    exact peek_made arranged usable made (last id mem) key
  rw [lookup_eq, order, List.findSome?_append, List.findSome?_append,
    same fun id mem => List.mem_append_left _ mem, same fun id mem => List.mem_append_right _ mem,
    Option.or_assoc]
  simp

end Made

/-- What is found in a layer that lasts is found afterwards, unless the new
generation brings something of its own. -/
theorem lookup_snapshotStore (arranged : v.Arranged) (grows : v.growth? = some (root, opener))
    (can : v.CanGrow root opener) {key : Bytes} (ne : key ≠ activeKey) (outlasts : v.Outlasts key)
    (blank : v.Blank root opener key) : v.snapshotStore.2.lookup key = v.lookup key := by
  obtain ⟨-, store, disk, opening, made⟩ := snapshotStore_made arranged grows can
  have usable := (growth?_eq_some.1 grows).1
  have new : v.snapshotStore.2.storage.peek (v.next root).layer key = none := by
    by_contra some_
    obtain ⟨x, found⟩ := Option.ne_none_iff_exists'.1 some_
    have brought := peek_made_next opening made found
    rw [if_neg ne, blank store disk opening] at brought
    cases brought
  have hit : (v.lastingOrder.findSome? fun id => v.storage.peek id key).isSome :=
    List.findSome?_isSome_iff.2 outlasts
  rw [lookup_made arranged usable made, new, Option.none_or, ← List.findSome?_append, lookup_eq,
    readOrder_eq_lasting usable]
  change v.lastingOrder.findSome? _ = _
  rw [List.findSome?_append, Option.or_of_isSome hit]

/-- So a node is read afterwards as it was before. -/
theorem trie_snapshotStore (arranged : v.Arranged) (grows : v.growth? = some (root, opener))
    (can : v.CanGrow root opener) {hash : NodeHash} (outlasts : v.Outlasts hash.bytes)
    (blank : v.Blank root opener hash.bytes) : v.snapshotStore.2.trie hash = v.trie hash := by
  have ne : hash.bytes ≠ activeKey := by
    intro same
    have length := hash.length_bytes
    rw [same] at length
    cases length
  unfold trie Walk.readNode
  rw [lookup_snapshotStore arranged grows can ne outlasts blank, scheme_snapshotStore]

end

end Vault

end TrieStorage
