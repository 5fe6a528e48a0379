import TrieStorage.Proofs.Generation.Growth

/-!
# One generation after another

The generations of a layout stand in ascending order, each open and in a
directory of its own.  Making one more closes those that are dropped, and takes
nothing from those that stay.  So a generation stays open until as many have
been made after it as there may be; from then on it is closed.
-/

namespace TrieStorage

namespace Generation

/-- The store of a generation is open, and its directory is there. -/
structure Open (g : Generation) (s : Storage) : Prop where
  store : ∃ serial layer, g.layer = .generation serial ∧ s.opened[serial]? = some layer ∧
    layer.closes = 0 ∧ layer.store.Writable
  directory : s.disk.entryAt? (s.disk.place g.path) = some .directory

/-- The store of a generation has been told to close. -/
def Closed (g : Generation) (s : Storage) : Prop :=
  ∃ serial layer, g.layer = .generation serial ∧ s.opened[serial]? = some layer ∧ 0 < layer.closes

variable {g : Generation} {s s' : Storage} {gone : List Generation} {root : String}

theorem Open.not_closed (h : g.Open s) : ¬ g.Closed s := by
  rintro ⟨serial, layer, same, found, closes⟩
  obtain ⟨serial', layer', same', found', closes', -⟩ := h.store
  cases same.symm.trans same'
  cases found.symm.trans found'
  omega

theorem Open.tends (h : g.Open s) (tends : s.Tends s') : g.Open s' := by
  obtain ⟨serial, layer, same, found, closes, writable⟩ := h.store
  obtain ⟨layer', found', closes', writable'⟩ := tends.layer found
  refine ⟨⟨serial, layer', same, found', closes'.trans closes, writable' writable⟩, ?_⟩
  rw [Disk.place_congr tends.disk.workDir]
  exact tends.disk.entries _ _ h.directory

theorem Closed.tends (h : g.Closed s) (tends : s.Tends s') : g.Closed s' := by
  obtain ⟨serial, layer, same, found, closes⟩ := h
  obtain ⟨layer', found', closes', -⟩ := tends.layer found
  exact ⟨serial, layer', same, found', by omega⟩

theorem Open.spared (h : g.Open s) (path : g.path = pathOf root g.id)
    (spared : Legacy.Spared gone s s')
    (apart : ∀ x ∈ gone, x.path = pathOf root x.id ∧ x.id ≠ g.id ∧ x.layer ≠ g.layer) :
    g.Open s' := by
  obtain ⟨serial, layer, same, found, open_⟩ := h.store
  refine ⟨⟨serial, layer, same, ?_, open_⟩, ?_⟩
  · have kept : s'.layer? (.generation serial) = s.layer? (.generation serial) := by
      refine spared.layer _ fun mem => ?_
      obtain ⟨x, hx, own⟩ := List.mem_map.1 mem
      exact (apart x hx).2.2 (own.trans same.symm)
    exact kept.trans found
  · rw [Disk.place_congr spared.workDir]
    rcases spared.entries (s.disk.place g.path) with kept | ⟨-, x, hx, under⟩
    · exact kept.trans h.directory
    · rw [path, (apart x hx).1] at under
      exact absurd under (Disk.not_prefix_pathOf (apart x hx).2.1)

theorem Closed.spared (h : g.Closed s) (spared : Legacy.Spared gone s s') : g.Closed s' := by
  obtain ⟨serial, layer, same, found, closes⟩ := h
  have found : s.layer? (.generation serial) = some layer := found
  obtain ⟨layer', found', le⟩ := spared.closes_le found
  exact ⟨serial, layer', same, found', by omega⟩

theorem Open.dropped (h : g.Open s) (spared : Legacy.Spared gone s s') (mem : g ∈ gone) :
    g.Closed s' := by
  obtain ⟨serial, layer, same, found, -⟩ := h.store
  have known : s.layer? g.layer = some layer := by
    rw [same]
    exact found
  obtain ⟨layer', found', less⟩ := spared.closes mem known
  rw [same] at found'
  exact ⟨serial, layer', same, found', by omega⟩

theorem open_of_openAt {opener : Opener} {n : Nat} {store : Store} {disk : Disk}
    (opening : opener.openAt s.disk (pathOf root n) = (.ok store, disk)) (name : LayerName) :
    Open ⟨n, pathOf root n, .generation s.opened.length⟩
      { s with disk, opened := s.opened ++ [{ name, store }] } := by
  refine ⟨⟨s.opened.length, { name, store }, rfl, ?_, rfl, Opener.writable_openAt opening⟩, ?_⟩
  · exact List.getElem?_concat_length
  · rw [Disk.place_congr (Disk.extends_openAt opening).workDir]
    exact Disk.directory_of_openAt (Disk.pathOf_ne root n) opening

/-! ## Generations in a row -/

/-- Generations in ascending order, each open and in its directory under a root. -/
structure Row (gs : List Generation) (root : String) (s : Storage) : Prop where
  ascending : gs.Pairwise fun a b => a.id < b.id
  path : ∀ g ∈ gs, g.path = pathOf root g.id
  opened : ∀ g ∈ gs, g.Open s

theorem Row.nil (root : String) (s : Storage) : Row [] root s := ⟨.nil, by simp, by simp⟩

theorem Row.tends {gs : List Generation} (h : Row gs root s) (tends : s.Tends s') :
    Row gs root s' :=
  ⟨h.ascending, h.path, fun g mem => (h.opened g mem).tends tends⟩

theorem Row.append {gs : List Generation} (h : Row gs root s) (below : ∀ x ∈ gs, x.id < g.id)
    (path : g.path = pathOf root g.id) (new : g.Open s) : Row (gs ++ [g]) root s := by
  refine ⟨?_, fun x mem => ?_, fun x mem => ?_⟩
  · refine List.pairwise_append.2 ⟨h.ascending, List.pairwise_singleton .., ?_⟩
    intro x mem y last
    rw [List.mem_singleton.1 last]
    exact below x mem
  all_goals rcases List.mem_append.1 mem with mem | last
  · exact h.path x mem
  · rw [List.mem_singleton.1 last]
    exact path
  · exact h.opened x mem
  · rw [List.mem_singleton.1 last]
    exact new

theorem Row.spared {gs : List Generation} {n : Nat} (h : Row gs root s)
    (distinct : (gs.map layer).Nodup) (spared : Legacy.Spared (gs.take n) s s') :
    Row (gs.drop n) root s' := by
  -- all numbers and all layers are different, so nothing that stays is dropped
  have apart := h.ascending.and (List.pairwise_map.1 distinct)
  rw [← List.take_append_drop n gs] at apart
  refine ⟨h.ascending.sublist (List.drop_sublist ..), fun g mem => ?_, fun g mem => ?_⟩
  · exact h.path g (List.mem_of_mem_drop mem)
  · have before := List.mem_of_mem_drop mem
    refine (h.opened g before).spared (h.path g before) spared fun x hx => ?_
    obtain ⟨less, ne⟩ := (List.pairwise_append.1 apart).2.2 x hx g mem
    exact ⟨h.path x (List.mem_of_mem_take hx), Nat.ne_of_lt less, ne⟩

theorem le_last {l : List Generation} (ascending : l.Pairwise fun a b => a.id < b.id)
    {top : Generation} (last : l.getLast? = some top) (mem : g ∈ l) : g.id ≤ top.id := by
  obtain ⟨front, rfl⟩ := List.getLast?_eq_some_iff.1 last
  rcases List.mem_append.1 mem with before | own
  · have below := (List.pairwise_append.1 ascending).2.2 g before top (List.mem_singleton_self top)
    exact Nat.le_of_lt below
  · exact Nat.le_of_eq (congrArg Generation.id (List.mem_singleton.1 own))

theorem pairwise_place {l : List Generation} (h : l.Pairwise fun a b => a.id < b.id) :
    (place g l).Pairwise fun a b => a.id < b.id := by
  induction l with
  | nil => exact List.pairwise_singleton ..
  | cons y l ih =>
    obtain ⟨first, rest⟩ := List.pairwise_cons.1 h
    unfold place
    split
    · next lt =>
      refine List.pairwise_cons.2 ⟨fun z mem => ?_, h⟩
      rcases List.mem_cons.1 mem with rfl | mem
      · exact lt
      · exact Nat.lt_trans lt (first z mem)
    · split
      · next same =>
        refine List.pairwise_cons.2 ⟨fun z mem => ?_, rest⟩
        rw [same]
        exact first z mem
      · refine List.pairwise_cons.2 ⟨fun z mem => ?_, ih rest⟩
        rcases mem_place mem with rfl | mem
        · omega
        · exact first z mem

theorem Row.place {gs : List Generation} (h : Row gs root s) (path : g.path = pathOf root g.id)
    (new : g.Open s) : Row (place g gs) root s := by
  refine ⟨pairwise_place h.ascending, fun x mem => ?_, fun x mem => ?_⟩
  · rcases mem_place mem with rfl | mem
    · exact path
    · exact h.path x mem
  · rcases mem_place mem with rfl | mem
    · exact new
    · exact h.opened x mem

end Generation

namespace Discovery

variable {root : String} {opener : Opener}

theorem row_run (s : Storage) :
    Generation.Row (run root opener s).1.generations root (run root opener s).2 := by
  refine run_induction (P := fun found s => Generation.Row found root s) (fun h opening => ?_)
    (fun h opening => ?_) (.nil root s)
  all_goals have kept := h.tends (Storage.grows_of_openGeneration opening).tends
  · exact kept
  · obtain ⟨store, disk, made, rfl, rfl⟩ := Storage.openGeneration_eq_ok opening
    exact kept.place rfl (Generation.open_of_openAt made _)

end Discovery

namespace Legacy

/-- The generations of a layout are in a row, and the last has the number before
the next one. -/
structure Shelved (l : Legacy) (root : String) (s : Storage) : Prop where
  row : Generation.Row l.generations root s
  last : ∀ g, l.generations.getLast? = some g → g.id + 1 = l.nextId

/-- How many generations have been made after one. -/
def age (l : Legacy) (g : Generation) : Nat := l.nextId - (g.id + 1)

/-- A generation that was the last at some time: it is as many places before the
last as generations have been made after it, until those are as many as there
may be; from then on it is closed. -/
structure Follows (l : Legacy) (max : Nat) (root : String) (s : Storage) (g : Generation) :
    Prop where
  path : g.path = Generation.pathOf root g.id
  number : g.id < l.nextId
  young : l.age g < max → l.generations.reverse[l.age g]? = some g
  old : max ≤ l.age g → g.Closed s

variable {l l' : Legacy} {root : String} {opener : Opener} {retention : Retention}
  {s s' : Storage} {g : Generation}

theorem Shelved.tends (h : l.Shelved root s) (tends : s.Tends s') : l.Shelved root s' :=
  ⟨h.row.tends tends, h.last⟩

theorem Follows.tends {max : Nat} (h : l.Follows max root s g) (tends : s.Tends s') :
    l.Follows max root s' g :=
  ⟨h.path, h.number, h.young, fun old => (h.old old).tends tends⟩

theorem shelved_adopt (l : Legacy) (s : Storage) :
    (l.adopt (Discovery.run root opener s).1).Shelved root (Discovery.run root opener s).2 := by
  refine ⟨Discovery.row_run s, fun g last => ?_⟩
  have last : (Discovery.run root opener s).1.generations.getLast? = some g := last
  unfold adopt Discovery.nextId
  rw [last]

theorem Shelved.below (h : l.Shelved root s) (mem : g ∈ l.generations) : g.id < l.nextId := by
  cases last : l.generations.getLast? with
  | none =>
    rw [List.getLast?_eq_none_iff.1 last] at mem
    cases mem
  | some top =>
    have le := Generation.le_last h.row.ascending last mem
    have next := h.last top last
    omega

/-! ## Making one more -/

/-- What making one more generation leaves. -/
structure Advanced (l : Legacy) (root : String) (retention : Retention) (s : Storage)
    (l' : Legacy) (s' : Storage) : Prop where
  generations : l'.generations = l.lasting retention ++ [l.next root s]
  nextId : l'.nextId = l.nextId + 1
  row : Generation.Row l'.generations root s'
  faded : ∀ g ∈ l.fading retention, g.Closed s'
  closed : ∀ g : Generation, g.Closed s → g.Closed s'

/-- Making one more fails and closes nothing, or it closes those that are dropped. -/
theorem Shelved.create_cases {answer : Except StoreError LayerId} (h : l.Shelved root s)
    (arranged : l.Arranged s) (pos : 0 < retention.max)
    (made : l.create root opener retention s = (answer, l', s')) :
    (∃ e, answer = .error e ∧ l' = l ∧ s.Grows s') ∨
      (answer = .ok (l.next root s).layer ∧ l.Advanced root retention s l' s') := by
  rcases Legacy.create_cases made with ⟨e, failed, same, grows⟩ |
    ⟨store, disk, opening, -, chosen, rfl, spared⟩
  · exact .inl ⟨e, failed, same, grows⟩
  · have few : l.generations.length + 1 - retention.max ≤ l.generations.length := by omega
    have tends := (l.grows_marking opening).tends
    have new : (l.next root s).Open (l.marking root store disk s).2 :=
      (Generation.open_of_openAt opening (l.nextName root)).tends (Storage.tends_put ..)
    have row := (h.row.tends tends).append (fun x mem => h.below mem) rfl new
    have grown : Arranged { l with generations := l.generations ++ [l.next root s] }
        (l.grown root store disk s) := arranged.append (by simp [Legacy.grown])
    refine .inr ⟨chosen, List.drop_append_of_le_length few, rfl, row.spared grown.distinct spared,
      fun g mem => ?_, fun g closed => ?_⟩
    · rw [List.take_append_of_le_length few] at spared
      exact ((h.row.opened g (List.mem_of_mem_take mem)).tends tends).dropped spared mem
    · exact (closed.tends tends).spared spared

theorem Advanced.shelved (h : l.Advanced root retention s l' s') : l'.Shelved root s' := by
  refine ⟨h.row, fun g last => ?_⟩
  rw [h.generations, List.getLast?_concat] at last
  cases last
  exact h.nextId.symm

/-- Last ones first, those that are left are the first of all. -/
theorem Advanced.reverse (h : l.Advanced root retention s l' s') (pos : 0 < retention.max) :
    l'.generations.reverse = (l.next root s :: l.generations.reverse).take retention.max := by
  obtain ⟨n, max⟩ : ∃ n, retention.max = n + 1 := ⟨retention.max - 1, by omega⟩
  rw [h.generations, lasting, max, List.reverse_append, List.reverse_drop, List.take_succ_cons,
    List.reverse_singleton, List.singleton_append]
  congr 1
  by_cases few : l.generations.length ≤ n
  · rw [List.take_of_length_le (by simp; omega), List.take_of_length_le (by simpa using few)]
  · congr 1
    omega

theorem Follows.advance (h : l.Follows retention.max root s g) (pos : 0 < retention.max)
    (advanced : l.Advanced root retention s l' s') : l'.Follows retention.max root s' g := by
  have number := h.number
  have older : l'.age g = l.age g + 1 := by
    unfold age
    rw [advanced.nextId]
    omega
  refine ⟨h.path, by rw [advanced.nextId]; omega, fun young => ?_, fun old => ?_⟩
  · rw [older] at young ⊢
    rw [advanced.reverse pos, List.getElem?_take_of_lt young, List.getElem?_cons_succ]
    exact h.young (by omega)
  · by_cases already : retention.max ≤ l.age g
    · exact advanced.closed g (h.old already)
    · -- this is the one that is dropped now
      refine advanced.faded g ?_
      have here := h.young (by omega)
      have reversed : (l.fading retention).reverse = l.generations.reverse.drop (l.age g) := by
        rw [fading, List.reverse_take]
        congr 1
        have lt := (List.getElem?_eq_some_iff.1 here).1
        rw [List.length_reverse] at lt
        omega
      rw [← List.mem_reverse, reversed]
      refine List.mem_of_getElem? (i := 0) ?_
      rw [List.getElem?_drop]
      exact here

theorem Advanced.follows (h : l.Advanced root retention s l' s') (pos : 0 < retention.max) :
    l'.Follows retention.max root s' (l.next root s) := by
  have young : l'.age (l.next root s) = 0 := by
    unfold age
    rw [h.nextId]
    exact Nat.sub_self _
  refine ⟨rfl, ?_, fun _ => ?_, fun old => ?_⟩
  · rw [h.nextId]
    exact Nat.lt_succ_self _
  · rw [young, h.reverse pos, List.getElem?_take_of_lt pos, List.getElem?_cons_zero]
  · omega

theorem Shelved.follows (h : l.Shelved root s) {max : Nat} (pos : 0 < max)
    (last : l.generations.getLast? = some g) : l.Follows max root s g := by
  have number := h.last g last
  have young : l.age g = 0 := by
    unfold age
    omega
  refine ⟨h.row.path g (List.mem_of_getLast? last), by omega, fun _ => ?_, fun old => by omega⟩
  rw [young, ← List.head?_eq_getElem?, List.head?_reverse]
  exact last

end Legacy

end TrieStorage
