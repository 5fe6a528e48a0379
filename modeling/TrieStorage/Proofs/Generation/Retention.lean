import TrieStorage.Proofs.Generation.Directories
import TrieStorage.Proofs.Storage.Closing

/-!
# Making a generation

Opening a generation appends a store to those opened so far, and letting go of
the oldest ones touches no store and no directory but theirs.  `creation` says everything that
making a generation can do, and `create_cases` what becomes of the storage by it.
-/

namespace TrieStorage

namespace Storage

theorem peek_congr {s s' : Storage} {id : LayerId} (layer : s'.layer? id = s.layer? id)
    (refusals : s'.refusals = s.refusals) (key : Bytes) : s'.peek id key = s.peek id key := by
  unfold peek get
  rw [layer, refusals]

/-- What was open is as it was; more may have been opened. -/
structure Grows (s s' : Storage) : Prop where
  layer : ∀ id, (s.layer? id).isSome → s'.layer? id = s.layer? id
  refusals : s'.refusals = s.refusals
  opened : s.opened.length ≤ s'.opened.length
  disk : s.disk.Extends s'.disk

theorem grows_disk (s : Storage) {disk : Disk} (more : s.disk.Extends disk) :
    s.Grows { s with disk } := by
  refine ⟨fun id _ => ?_, rfl, Nat.le_refl _, more⟩
  cases id <;> rfl

theorem grows_append (s : Storage) {disk : Disk} (more : s.disk.Extends disk) (layer : Layer) :
    s.Grows { s with disk, opened := s.opened ++ [layer] } := by
  refine ⟨fun id known => ?_, rfl, by simp, more⟩
  cases id with
  | generation serial =>
    have lt : serial < s.opened.length := by simpa [layer?] using known
    exact List.getElem?_append_left lt
  | _ => rfl

/-- A layer was there before, or it is the one that has been opened. -/
theorem layer?_append {s : Storage} {disk : Disk} {new layer : Layer} {id : LayerId}
    (found : Storage.layer? { s with disk, opened := s.opened ++ [new] } id = some layer) :
    s.layer? id = some layer ∨ id = .generation s.opened.length ∧ layer = new := by
  cases id with
  | generation serial =>
    rcases Nat.lt_trichotomy serial s.opened.length with old | rfl | beyond
    · exact .inl ((List.getElem?_append_left old).symm.trans found)
    · exact .inr ⟨rfl, Option.some.inj (found.symm.trans List.getElem?_concat_length)⟩
    · have within := (List.getElem?_eq_some_iff.1 found).1
      rw [List.length_append, List.length_singleton] at within
      omega
  | _ => exact .inl found

theorem Grows.peek {s s' : Storage} (h : s.Grows s') {id : LayerId} (known : (s.layer? id).isSome)
    (key : Bytes) : s'.peek id key = s.peek id key :=
  peek_congr (h.layer id known) h.refusals key

theorem Grows.closes? {s s' : Storage} (h : s.Grows s') {id : LayerId} {n : Nat}
    (count : s.closes? id = some n) : s'.closes? id = some n := by
  unfold Storage.closes? at count ⊢
  obtain ⟨layer, found, -⟩ := Option.map_eq_some_iff.1 count
  rw [h.layer id (Option.isSome_of_eq_some found)]
  exact count

theorem length_opened_put (s : Storage) (id : LayerId) (key value : Bytes) :
    (s.put id key value).2.opened.length = s.opened.length := by
  cases found : s.layer? id with
  | none => rw [put_of_none found]
  | some layer =>
    rw [put_eq found]
    exact length_opened_setLayer ..

theorem sameNames_put (s : Storage) (id : LayerId) (key value : Bytes) :
    s.disk.SameNames (s.put id key value).2.disk := by
  cases found : s.layer? id with
  | none =>
    rw [put_of_none found]
    exact .refl _
  | some layer =>
    rw [put_eq found, disk_setLayer]
    unfold Layer.put
    dsimp only
    split
    · exact .refl _
    · exact Disk.sameNames_put layer.store s.disk key value

theorem sameNames_remove (s : Storage) (id : LayerId) (key : Bytes) :
    s.disk.SameNames (s.remove id key).2.disk := by
  unfold remove
  split
  · exact .refl _
  · next layer _ =>
    rw [disk_setLayer]
    unfold Layer.remove
    dsimp only
    split
    · exact .refl _
    · exact Disk.sameNames_remove layer.store s.disk key

/-- No generation is closed, and nothing is removed from the disk. -/
structure Tends (s s' : Storage) : Prop where
  disk : s.disk.Extends s'.disk
  layer : ∀ {serial : Nat} {layer : Layer}, s.opened[serial]? = some layer →
    ∃ layer', s'.opened[serial]? = some layer' ∧ layer'.closes = layer.closes ∧
      (layer.store.Writable → layer'.store.Writable)

namespace Tends

variable {s s' s'' : Storage}

theorem of_opened (disk : s.disk.Extends s'.disk) (opened : s'.opened = s.opened) :
    s.Tends s' := by
  refine ⟨disk, fun {serial layer} found => ⟨layer, ?_, rfl, id⟩⟩
  rw [opened]
  exact found

theorem refl (s : Storage) : s.Tends s := of_opened (.refl _) rfl

theorem trans (h : s.Tends s') (h' : s'.Tends s'') : s.Tends s'' := by
  refine ⟨h.disk.trans h'.disk, fun found => ?_⟩
  obtain ⟨layer', found', closes, writable⟩ := h.layer found
  obtain ⟨layer'', found'', closes', writable'⟩ := h'.layer found'
  exact ⟨layer'', found'', closes'.trans closes, writable' ∘ writable⟩

end Tends

theorem Grows.tends {s s' : Storage} (h : s.Grows s') : s.Tends s' := by
  refine ⟨h.disk, fun {serial layer} found => ⟨layer, ?_, rfl, id⟩⟩
  have known : (s.layer? (.generation serial)).isSome := Option.isSome_of_eq_some found
  exact (h.layer _ known).trans found

theorem tends_put (s : Storage) (id : LayerId) (key value : Bytes) :
    s.Tends (s.put id key value).2 := by
  refine ⟨(s.sameNames_put id key value).more, fun {serial layer} found => ?_⟩
  have found : s.layer? (.generation serial) = some layer := found
  by_cases own : id = .generation serial
  · subst own
    refine ⟨_, layer?_put_self found key value, ?_⟩
    unfold Layer.put
    dsimp only
    split
    · exact ⟨rfl, fun writable => writable⟩
    · exact ⟨rfl, fun writable => (writable.put s.disk key value).2⟩
  · refine ⟨layer, ?_, rfl, fun writable => writable⟩
    exact (layer?_put_of_ne (Ne.symm own) key value).trans found

theorem tends_remove_main (s : Storage) (key : Bytes) : s.Tends (s.remove .main key).2 :=
  .of_opened (s.sameNames_remove .main key).more rfl

/-! ## Opening -/

theorem openGeneration_eq_ok {s s' : Storage} {opener : Opener} {dir : String} {id : LayerId}
    (h : s.openGeneration opener dir = (.ok id, s')) :
    ∃ store disk, opener.openAt s.disk dir = (.ok store, disk) ∧
      id = .generation s.opened.length ∧
      s' = { s with
        disk, opened := s.opened ++ [{ name := .generation (Path.lastName dir), store }] } := by
  unfold openGeneration at h
  dsimp only at h
  split at h
  · cases h
  · split at h
    · cases h
    · next store disk made =>
      cases h
      exact ⟨store, disk, made, rfl, rfl⟩

theorem openGeneration_of_openAt {s : Storage} {opener : Opener} {dir : String} {store : Store}
    {disk : Disk}
    (free : s.refusals.refuse (.generation (Path.lastName dir)) .opening none = false)
    (made : opener.openAt s.disk dir = (.ok store, disk)) :
    s.openGeneration opener dir = (.ok (.generation s.opened.length),
      { s with
        disk, opened := s.opened ++ [{ name := .generation (Path.lastName dir), store }] }) := by
  unfold openGeneration
  dsimp only
  rw [if_neg (by simp [free]), made]

/-- A failure to open leaves everything but the disk alone, and that as well if the
call was refused. -/
theorem openGeneration_error {s s' : Storage} {opener : Opener} {dir : String} {e : StoreError}
    (h : s.openGeneration opener dir = (.error e, s')) :
    ∃ disk, (disk = s.disk ∨ opener.openAt s.disk dir = (.error e, disk)) ∧
      s' = { s with disk } := by
  unfold openGeneration at h
  dsimp only at h
  split at h
  · cases h
    exact ⟨s.disk, .inl rfl, rfl⟩
  · split at h
    · next opening =>
      cases h
      exact ⟨_, .inr opening, rfl⟩
    · cases h

theorem grows_of_openGeneration {s s' : Storage} {opener : Opener} {dir : String}
    {answer : Except StoreError LayerId} (h : s.openGeneration opener dir = (answer, s')) :
    s.Grows s' := by
  cases answer with
  | error e =>
    obtain ⟨disk, same | opening, rfl⟩ := openGeneration_error h
    · rw [same]
      exact s.grows_disk (.refl _)
    · exact s.grows_disk (Disk.extends_openAt opening)
  | ok id =>
    obtain ⟨store, disk, opening, -, rfl⟩ := openGeneration_eq_ok h
    exact s.grows_append (Disk.extends_openAt opening) _

end Storage

/-! ## Dropping the oldest generations -/

namespace Legacy

/-- What dropping generations does to the storage: their layers are closed, and
their directories may be removed. -/
structure Spared (gone : List Generation) (s s' : Storage) : Prop where
  layer : ∀ id, id ∉ gone.map Generation.layer → s'.layer? id = s.layer? id
  refusals : s'.refusals = s.refusals
  opened : s'.opened.length = s.opened.length
  counted : ∀ id, s'.closes? id = (s.closes? id).map (· + (gone.map Generation.layer).count id)
  workDir : s'.disk.workDir = s.disk.workDir
  entries : ∀ p, s'.disk.entryAt? p = s.disk.entryAt? p ∨
    s'.disk.entryAt? p = none ∧ ∃ g ∈ gone, s.disk.place g.path <+: p

theorem Spared.refl (s : Storage) : Spared [] s s :=
  ⟨fun _ _ => rfl, rfl, rfl, (by simp), rfl, fun _ => .inl rfl⟩

/-- A layer that has been opened counts how often it is dropped. -/
theorem Spared.closes_eq {gone : List Generation} {s s' : Storage} (h : Spared gone s s')
    {id : LayerId} {layer : Layer} (found : s.layer? id = some layer) :
    ∃ layer', s'.layer? id = some layer' ∧
      layer'.closes = layer.closes + (gone.map Generation.layer).count id := by
  have counted := h.counted id
  unfold Storage.closes? at counted
  rw [found] at counted
  exact Option.map_eq_some_iff.1 counted

theorem Spared.closes_le {gone : List Generation} {s s' : Storage} (h : Spared gone s s')
    {id : LayerId} {layer : Layer} (found : s.layer? id = some layer) :
    ∃ layer', s'.layer? id = some layer' ∧ layer.closes ≤ layer'.closes := by
  obtain ⟨layer', found', count⟩ := h.closes_eq found
  exact ⟨layer', found', by omega⟩

theorem Spared.closes {gone : List Generation} {s s' : Storage} (h : Spared gone s s')
    {g : Generation} (mem : g ∈ gone) {layer : Layer} (found : s.layer? g.layer = some layer) :
    ∃ layer', s'.layer? g.layer = some layer' ∧ layer.closes < layer'.closes := by
  obtain ⟨layer', found', count⟩ := h.closes_eq found
  have pos := List.count_pos_iff.2 (List.mem_map_of_mem (f := Generation.layer) mem)
  exact ⟨layer', found', by omega⟩

theorem dropGeneration_cases (keepOnDisk : Bool) (g : Generation) (s : Storage) :
    ∃ disk, dropGeneration keepOnDisk g s = { (s.close g.layer).2 with disk } ∧
      (disk = s.disk ∨ s.disk.removeTree g.path = some disk) := by
  have kept : { (s.close g.layer).2 with disk := s.disk } = (s.close g.layer).2 := by
    rw [← s.disk_close g.layer]
  unfold dropGeneration
  dsimp only
  split
  · exact ⟨s.disk, kept.symm, .inl rfl⟩
  · rw [s.disk_close]
    split
    · next disk removed => exact ⟨disk, rfl, .inr removed⟩
    · exact ⟨s.disk, kept.symm, .inl rfl⟩

theorem dropGeneration_spared (keepOnDisk : Bool) (g : Generation) (s : Storage) :
    Spared [g] s (dropGeneration keepOnDisk g s) := by
  obtain ⟨disk, same, names⟩ := dropGeneration_cases keepOnDisk g s
  have found (id : LayerId) (disk : Disk) :
      { (s.close g.layer).2 with disk }.layer? id = (s.close g.layer).2.layer? id := by
    cases id <;> rfl
  have removed : disk.workDir = s.disk.workDir ∧ ∀ p, disk.entryAt? p = s.disk.entryAt? p ∨
      disk.entryAt? p = none ∧ s.disk.place g.path <+: p := by
    rcases names with rfl | removed
    · exact ⟨rfl, fun _ => .inl rfl⟩
    · obtain ⟨workDir, entries⟩ := Disk.removeTree_eq_some removed
      refine ⟨workDir, fun p => ?_⟩
      rw [entries]
      by_cases below : s.disk.place g.path <+: p
      · exact .inr ⟨if_pos below, below⟩
      · exact .inl (if_neg below)
  rw [same]
  refine ⟨fun id other => ?_, s.refusals_close g.layer, s.length_opened_close g.layer,
    fun id => ?_, removed.1, fun p => ?_⟩
  · have ne : id ≠ g.layer := by simpa using other
    rw [found, s.layer?_close_of_ne g.layer ne]
  · rw [Storage.closes?_disk]
    exact s.closes?_close g.layer id
  · refine (removed.2 p).imp_right fun gone => ⟨gone.1, g, List.mem_singleton_self g, gone.2⟩

theorem Spared.trans {gone more : List Generation} {s s' s'' : Storage} (h : Spared gone s s')
    (h' : Spared more s' s'') : Spared (gone ++ more) s s'' := by
  refine ⟨fun id other => ?_, h'.refusals.trans h.refusals, h'.opened.trans h.opened,
    fun id => ?_, h'.workDir.trans h.workDir, fun p => ?_⟩
  · rw [List.map_append, List.mem_append, not_or] at other
    exact (h'.layer id other.2).trans (h.layer id other.1)
  · have both (n : Nat) : n + (gone.map Generation.layer).count id +
        (more.map Generation.layer).count id =
        n + ((gone ++ more).map Generation.layer).count id := by
      rw [List.map_append, List.count_append, Nat.add_assoc]
    rw [h'.counted, h.counted, Option.map_map]
    exact congrArg (fun f => (s.closes? id).map f) (funext both)
  · rcases h'.entries p with same | ⟨gone', g, mem, below⟩
    · rw [same]
      rcases h.entries p with same | ⟨gone', g, mem, below⟩
      · exact .inl same
      · exact .inr ⟨gone', g, List.mem_append_left _ mem, below⟩
    · rw [Disk.place_congr h.workDir] at below
      exact .inr ⟨gone', g, List.mem_append_right _ mem, below⟩

theorem evict_eq (keepOnDisk : Bool) (n : Nat) (gs : List Generation) (s : Storage) :
    (evict keepOnDisk n gs s).1 = gs.drop n ∧
      Spared (gs.take n) s (evict keepOnDisk n gs s).2 := by
  induction n generalizing gs s with
  | zero => exact ⟨rfl, .refl s⟩
  | succ n ih =>
    cases gs with
    | nil => exact ⟨rfl, .refl s⟩
    | cons g gs =>
      obtain ⟨left, spared⟩ := ih gs (dropGeneration keepOnDisk g s)
      exact ⟨left, (dropGeneration_spared keepOnDisk g s).trans spared⟩

/-! ## Making one more -/

variable {l l' : Legacy} {root : String} {opener : Opener} {retention : Retention}
  {s s' : Storage}

/-- The generation that is made next. -/
def next (l : Legacy) (root : String) (s : Storage) : Generation :=
  ⟨l.nextId, Generation.pathOf root l.nextId, .generation s.opened.length⟩

/-- The name of its layer. -/
def nextName (l : Legacy) (root : String) : LayerName :=
  .generation (Path.lastName (Generation.pathOf root l.nextId))

/-- The storage once its store has been opened. -/
def grown (l : Legacy) (root : String) (store : Store) (disk : Disk) (s : Storage) : Storage :=
  { s with disk, opened := s.opened ++ [{ name := l.nextName root, store }] }

/-- Marks its store as active. -/
def marking (l : Legacy) (root : String) (store : Store) (disk : Disk) (s : Storage) :
    Except StoreError Unit × Storage :=
  (l.grown root store disk s).put (l.next root s).layer activeKey activeValue

/-- The generations that are left once one more has been made. -/
def lasting (l : Legacy) (retention : Retention) : List Generation :=
  l.generations.drop (l.generations.length + 1 - retention.max)

/-- The generations that are then dropped. -/
def fading (l : Legacy) (retention : Retention) : List Generation :=
  l.generations.take (l.generations.length + 1 - retention.max)

section

variable (l root s) (store : Store) (disk : Disk)

theorem layer?_grown : (l.grown root store disk s).layer? (l.next root s).layer =
    some { name := l.nextName root, store } := by
  simp [Storage.layer?, next, grown]

theorem length_opened_marking :
    (l.marking root store disk s).2.opened.length = s.opened.length + 1 := by
  unfold marking
  rw [Storage.length_opened_put]
  simp [grown]

theorem sameNames_marking : disk.SameNames (l.marking root store disk s).2.disk :=
  (l.grown root store disk s).sameNames_put (l.next root s).layer activeKey activeValue

end

theorem grows_marking {store : Store} {disk : Disk}
    (opening : opener.openAt s.disk (Generation.pathOf root l.nextId) = (.ok store, disk)) :
    s.Grows (l.marking root store disk s).2 := by
  have grown : s.Grows (l.grown root store disk s) :=
    s.grows_append (Disk.extends_openAt opening) _
  refine ⟨fun id known => ?_, ?_, ?_, grown.disk.trans (l.sameNames_marking root s store disk).more⟩
  · have ne : id ≠ (l.next root s).layer := by
      rintro rfl
      simp [Storage.layer?, next] at known
    exact (Storage.layer?_put_of_ne ne ..).trans (grown.layer id known)
  · exact (Storage.refusals_put ..).trans grown.refusals
  · rw [length_opened_marking]
    exact Nat.le_succ _

/-- What an attempt to make a generation comes to: its store is not opened, or it is opened and not
marked, or the generation is put behind the others and the oldest ones are dropped. -/
inductive Creation (l : Legacy) (root : String) (opener : Opener) (retention : Retention)
    (s : Storage) : Except StoreError LayerId → Legacy → Storage → Prop where
  | unopened {e : StoreError} {s' : Storage}
      (opening : s.openGeneration opener (Generation.pathOf root l.nextId) = (.error e, s')) :
      Creation l root opener retention s (.error e) l s'
  | unmarked {store : Store} {disk : Disk} {e : StoreError} {s' : Storage}
      (opening : s.openGeneration opener (Generation.pathOf root l.nextId) =
        (.ok (l.next root s).layer, l.grown root store disk s))
      (opened : opener.openAt s.disk (Generation.pathOf root l.nextId) = (.ok store, disk))
      (marking : l.marking root store disk s = (.error e, s')) :
      Creation l root opener retention s (.error e) l s'
  | made {store : Store} {disk : Disk}
      (opening : s.openGeneration opener (Generation.pathOf root l.nextId) =
        (.ok (l.next root s).layer, l.grown root store disk s))
      (opened : opener.openAt s.disk (Generation.pathOf root l.nextId) = (.ok store, disk))
      (marking : (l.marking root store disk s).1 = .ok ()) :
      Creation l root opener retention s (.ok (l.next root s).layer)
        { l with
          generations := (l.generations ++ [l.next root s]).drop
            (l.generations.length + 1 - retention.max)
          nextId := l.nextId + 1 }
        (evict retention.keepOnDisk (l.generations.length + 1 - retention.max)
          (l.generations ++ [l.next root s]) (l.marking root store disk s).2).2

theorem creation {answer : Except StoreError LayerId}
    (h : l.create root opener retention s = (answer, l', s')) :
    l.Creation root opener retention s answer l' s' := by
  unfold create Generation.openIn at h
  dsimp only at h
  rcases opening : s.openGeneration opener (Generation.pathOf root l.nextId) with ⟨e | id, s₁⟩
  · rw [opening] at h
    cases h
    exact .unopened opening
  · rw [opening] at h
    dsimp only at h
    obtain ⟨store, disk, opened, rfl, rfl⟩ := Storage.openGeneration_eq_ok opening
    split at h
    · next e marked failed =>
      cases h
      exact .unmarked opening opened failed
    · next marked taken =>
      have taken : l.marking root store disk s = (.ok (), marked) := taken
      simp only [List.length_append, List.length_singleton, Prod.mk.injEq] at h
      obtain ⟨rfl, rfl, rfl⟩ := h
      have left := (evict_eq retention.keepOnDisk (l.generations.length + 1 - retention.max)
        (l.generations ++ [l.next root s]) marked).1
      have made : l.Creation root opener retention s _ _ _ :=
        .made opening opened (congrArg Prod.fst taken)
      rw [taken, ← left] at made
      exact made

/-- Making a generation fails before anything is known of it, or the generation
is put behind the others and the oldest ones are dropped. -/
theorem create_cases {answer : Except StoreError LayerId}
    (h : l.create root opener retention s = (answer, l', s')) :
    (∃ e, answer = .error e ∧ l' = l ∧ s.Grows s') ∨
    ∃ store disk,
      opener.openAt s.disk (Generation.pathOf root l.nextId) = (.ok store, disk) ∧
      (l.marking root store disk s).1 = .ok () ∧
      answer = .ok (l.next root s).layer ∧
      l' = { l with
        generations := (l.generations ++ [l.next root s]).drop
          (l.generations.length + 1 - retention.max)
        nextId := l.nextId + 1 } ∧
      Spared ((l.generations ++ [l.next root s]).take
        (l.generations.length + 1 - retention.max)) (l.marking root store disk s).2 s' := by
  cases creation h with
  | unopened opening => exact .inl ⟨_, rfl, rfl, Storage.grows_of_openGeneration opening⟩
  | unmarked _ opened marking =>
    have grows := l.grows_marking opened
    rw [marking] at grows
    exact .inl ⟨_, rfl, rfl, grows⟩
  | made _ opened marking => exact .inr ⟨_, _, opened, marking, rfl, rfl, (evict_eq ..).2⟩

end Legacy

end TrieStorage
