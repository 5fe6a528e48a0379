import TrieStorage.Proofs.Generation.Retention

/-!
# Growing by a generation

The stores of the generations are all different, and each has been opened.  So
making one more takes nothing away from the stores that stay: what was found in
one of them is found there afterwards.
-/

namespace TrieStorage

/-- The stores of the generations are different, and each has been opened. -/
structure Legacy.Arranged (l : Legacy) (s : Storage) : Prop where
  distinct : (l.generations.map Generation.layer).Nodup
  known : ∀ g ∈ l.generations, ∃ serial, serial < s.opened.length ∧ g.layer = .generation serial

namespace Generation

theorem mem_place {g x : Generation} {l : List Generation} (h : x ∈ place g l) : x = g ∨ x ∈ l := by
  induction l with
  | nil => exact .inl (List.mem_singleton.1 h)
  | cons y l ih =>
    unfold place at h
    split at h
    · exact List.mem_cons.1 h
    · split at h
      · exact (List.mem_cons.1 h).imp_right (List.mem_cons_of_mem y)
      · rcases List.mem_cons.1 h with rfl | h
        · exact .inr List.mem_cons_self
        · exact (ih h).imp_right (List.mem_cons_of_mem y)

theorem nodup_place {g : Generation} {l : List Generation} (fresh : g.layer ∉ l.map layer)
    (distinct : (l.map layer).Nodup) : ((place g l).map layer).Nodup := by
  induction l with
  | nil => simp [place]
  | cons y l ih =>
    simp only [List.map_cons, List.mem_cons, not_or] at fresh
    simp only [List.map_cons, List.nodup_cons] at distinct
    unfold place
    split
    · simp only [List.map_cons, List.nodup_cons, List.mem_cons, not_or]
      exact ⟨fresh, distinct⟩
    · split
      · exact List.nodup_cons.2 ⟨fresh.2, distinct.2⟩
      · refine List.nodup_cons.2 ⟨fun h => ?_, ih fresh.2 distinct.2⟩
        obtain ⟨x, hx, same⟩ := List.mem_map.1 h
        rcases mem_place hx with rfl | hx
        · exact fresh.1 same
        · exact distinct.1 (List.mem_map.2 ⟨x, hx, same⟩)

end Generation

namespace Legacy.Arranged

variable {l l' : Legacy} {root : String} {opener : Opener} {retention : Retention}
  {s s' : Storage}

theorem mono (h : l.Arranged s) (generations : l'.generations.Sublist l.generations)
    (opened : s.opened.length ≤ s'.opened.length) : l'.Arranged s' := by
  refine ⟨h.distinct.sublist (generations.map _), fun g hg => ?_⟩
  obtain ⟨serial, lt, same⟩ := h.known g (generations.subset hg)
  exact ⟨serial, Nat.lt_of_lt_of_le lt opened, same⟩

/-- A store that has not been opened yet is none of theirs. -/
theorem fresh (h : l.Arranged s) :
    LayerId.generation s.opened.length ∉ l.generations.map Generation.layer := by
  intro mem
  obtain ⟨g, hg, same⟩ := List.mem_map.1 mem
  obtain ⟨serial, lt, same'⟩ := h.known g hg
  rw [same'] at same
  cases same
  exact Nat.lt_irrefl _ lt

theorem append (h : l.Arranged s) (opened : s.opened.length < s'.opened.length) :
    Arranged { l with generations := l.generations ++ [l.next root s] } s' := by
  refine ⟨?_, fun g hg => ?_⟩
  · simp only [List.map_append, List.map_cons, List.map_nil]
    refine List.nodup_append.2 ⟨h.distinct, by simp, fun a ha b hb same => ?_⟩
    rw [same, List.mem_singleton.1 hb] at ha
    exact h.fresh ha
  · rcases List.mem_append.1 hg with old | new
    · obtain ⟨serial, lt, same⟩ := h.known g old
      exact ⟨serial, Nat.lt_trans lt opened, same⟩
    · rw [List.mem_singleton.1 new]
      exact ⟨s.opened.length, opened, rfl⟩

theorem create {answer : Except StoreError LayerId} (h : l.Arranged s)
    (made : l.create root opener retention s = (answer, l', s')) : l'.Arranged s' := by
  rcases create_cases made with ⟨-, -, rfl, grows⟩ |
    ⟨store, disk, -, -, -, rfl, spared⟩
  · exact h.mono (.refl _) grows.opened
  · have opened : s.opened.length < s'.opened.length := by
      rw [spared.opened, length_opened_marking]
      exact Nat.lt_succ_self _
    exact (h.append opened).mono (List.drop_sublist ..) (Nat.le_refl _)

end Legacy.Arranged

/-! ## Reading afterwards -/

theorem Opener.openAt_eq_ok {opener : Opener} {disk disk' : Disk} {dir : String} {store : Store}
    (h : opener.openAt disk dir = (.ok store, disk')) :
    store = .memory {} ∨ ∃ id table, store = .logged ⟨dir, some id, table⟩ := by
  cases Opener.opened h with
  | memory _ => exact .inl rfl
  | logged _ _ _ => exact .inr ⟨_, _, rfl⟩

theorem Opener.writable_openAt {opener : Opener} {disk disk' : Disk} {dir : String}
    {store : Store} (h : opener.openAt disk dir = (.ok store, disk')) : store.Writable := by
  rcases openAt_eq_ok h with rfl | ⟨id, table, rfl⟩ <;> rfl

theorem Opener.get_put_openAt {opener : Opener} {disk disk' : Disk} {dir : String}
    {store : Store} (h : opener.openAt disk dir = (.ok store, disk')) (d : Disk)
    (key value : Bytes) : (store.put d key value).2.1.get key = .ok (some value) := by
  have found (table : Table) : (table.insert key value).get? key = some value := by
    rw [Table.get?_insert, if_pos rfl]
  rcases openAt_eq_ok h with rfl | ⟨id, table, rfl⟩
  · simp [Store.put, Store.get, MemoryStore.put, MemoryStore.get, found]
  · simp [Store.put, Store.get, LoggedStore.put, LoggedStore.append, LoggedStore.get,
      LogRecord.apply, found]

namespace Legacy

/-- What is left by making a generation whose store is `store`. -/
structure Made (l : Legacy) (root : String) (store : Store) (disk : Disk) (retention : Retention)
    (s : Storage) (l' : Legacy) (s' : Storage) : Prop where
  generations : l'.generations = l.lasting retention ++ [l.next root s]
  usable : l'.usable = l.usable
  refusals : s'.refusals = s.refusals
  spared : ∀ id, (s.layer? id).isSome → id ∉ (l.fading retention).map Generation.layer →
    s'.layer? id = s.layer? id
  layer : s'.layer? (l.next root s).layer = some
    (Layer.put { name := l.nextName root, store } s.refusals disk activeKey activeValue).2.1
  marked :
    (Layer.put { name := l.nextName root, store } s.refusals disk activeKey activeValue).1 = .ok ()

variable {l l' : Legacy} {root : String} {opener : Opener} {retention : Retention}
  {s s' : Storage}

theorem create_eq_ok {id : LayerId} (pos : 0 < retention.max) (arranged : l.Arranged s)
    (made : l.create root opener retention s = (.ok id, l', s')) :
    id = (l.next root s).layer ∧ ∃ store disk,
      opener.openAt s.disk (Generation.pathOf root l.nextId) = (.ok store, disk) ∧
      l.Made root store disk retention s l' s' := by
  rcases create_cases made with ⟨e, failed, -, -⟩ |
    ⟨store, disk, opening, taken, same, rfl, spared⟩
  · cases failed
  · have few : l.generations.length + 1 - retention.max ≤ l.generations.length := by omega
    have gone : (l.generations ++ [l.next root s]).take
        (l.generations.length + 1 - retention.max) = l.fading retention :=
      List.take_append_of_le_length few
    rw [gone] at spared
    have grows := l.grows_marking opening
    refine ⟨Except.ok.inj same, store, disk, opening, ?_, rfl, ?_, fun id found kept => ?_, ?_, ?_⟩
    · exact List.drop_append_of_le_length few
    · exact spared.refusals.trans grows.refusals
    · exact (spared.layer id kept).trans (grows.layer id found)
    · have stays : (l.next root s).layer ∉ (l.fading retention).map Generation.layer :=
        fun mem => arranged.fresh (((List.take_sublist _ _).map _).subset mem)
      exact (spared.layer _ stays).trans
        (Storage.layer?_put_self (l.layer?_grown root s store disk) ..)
    · unfold marking at taken
      rw [Storage.put_eq (l.layer?_grown root s store disk)] at taken
      exact taken

theorem marking_eq_ok {store : Store} {disk : Disk}
    (free : s.refusals.refuse (l.nextName root) .put (some activeKey) = false)
    (opening : opener.openAt s.disk (Generation.pathOf root l.nextId) = (.ok store, disk)) :
    (l.marking root store disk s).1 = .ok () := by
  have free : (l.grown root store disk s).refusals.refuse (l.nextName root) .put
      (some activeKey) = false := free
  unfold marking
  rw [Storage.put_eq (l.layer?_grown root s store disk)]
  simp only [Layer.put, free, Bool.false_eq_true, if_false]
  exact ((Opener.writable_openAt opening).put disk activeKey activeValue).1

theorem create_of_openAt {store : Store} {disk : Disk}
    (free : ∀ call key, s.refusals.refuse (l.nextName root) call key = false)
    (opening : opener.openAt s.disk (Generation.pathOf root l.nextId) = (.ok store, disk)) :
    (l.create root opener retention s).1 = .ok (l.next root s).layer := by
  rcases attempt : l.create root opener retention s with ⟨answer, l', s'⟩
  cases creation attempt with
  | unopened failed =>
    rw [Storage.openGeneration_of_openAt (free .opening none) opening] at failed
    cases failed
  | unmarked _ opened failed =>
    have marked := marking_eq_ok (free .put (some activeKey)) opened
    rw [failed] at marked
    cases marked
  | made => rfl

/-- If a store can be marked, a generation is not made only if that cannot be opened. -/
theorem create_eq_error {e : StoreError}
    (free : s.refusals.refuse (l.nextName root) .put (some activeKey) = false)
    (failed : l.create root opener retention s = (.error e, l', s')) :
    l' = l ∧ s.openGeneration opener (Generation.pathOf root l.nextId) = (.error e, s') := by
  cases creation failed with
  | unopened opening => exact ⟨rfl, opening⟩
  | unmarked _ opened marking =>
    have marked := marking_eq_ok free opened
    rw [marking] at marked
    cases marked

end Legacy

/-! ## Scanning -/

namespace Discovery

variable {root : String} {opener : Opener} {s : Storage}

section

variable {P : List Generation → Storage → Prop}
  (fails : ∀ {found : List Generation} {s s' : Storage} {n : Nat} {e : StoreError}, P found s →
    s.openGeneration opener (Generation.pathOf root n) = (.error e, s') → P found s')
  (opens : ∀ {found : List Generation} {s s' : Storage} {n : Nat} {id : LayerId}, P found s →
    s.openGeneration opener (Generation.pathOf root n) = (.ok id, s') →
    P (Generation.place ⟨n, Generation.pathOf root n, id⟩ found) s')

include fails opens

theorem scan_induction {names : List String} {found : List Generation} (start : P found s) :
    P (scan root opener names found s).1.generations (scan root opener names found s).2 := by
  induction names generalizing found s with
  | nil => exact start
  | cons name names ih =>
    unfold scan
    split
    · exact start
    · next number _ =>
      unfold Generation.openIn
      dsimp only
      rcases opening : s.openGeneration opener (Generation.pathOf root number) with ⟨e | id, s'⟩
      · exact fails start opening
      · exact ih (opens start opening)

/-- What holds when nothing is found yet, and is kept by trying to open one more,
holds when all have been looked for. -/
theorem run_induction (start : P [] s) :
    P (run root opener s).1.generations (run root opener s).2 := by
  unfold run
  split
  · exact start
  · exact start
  · exact scan_induction (P := P) fails opens start

end

theorem arranged_run (l : Legacy) :
    Legacy.Arranged (l.adopt (run root opener s).1) (run root opener s).2 := by
  have arranged : Legacy.Arranged { l with generations := (run root opener s).1.generations }
      (run root opener s).2 := by
    refine run_induction (P := fun found s => Legacy.Arranged { l with generations := found } s)
      (fun h opening => ?_) (fun h opening => ?_) ⟨List.nodup_nil, by simp⟩
    · exact h.mono (.refl _) (Storage.grows_of_openGeneration opening).opened
    · obtain ⟨store, disk, -, rfl, rfl⟩ := Storage.openGeneration_eq_ok opening
      refine ⟨Generation.nodup_place h.fresh h.distinct, fun g hg => ?_⟩
      simp only [List.length_append, List.length_cons, List.length_nil]
      rcases Generation.mem_place hg with rfl | old
      · exact ⟨_, Nat.lt_succ_self _, rfl⟩
      · obtain ⟨serial, lt, same⟩ := h.known g old
        exact ⟨serial, Nat.lt_succ_of_lt lt, same⟩
  exact ⟨arranged.distinct, arranged.known⟩

end Discovery

end TrieStorage
