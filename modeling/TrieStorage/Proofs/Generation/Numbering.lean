import TrieStorage.Proofs.Generation.Succession

/-!
# The number of the next generation

A scan counts on from the greatest number that it has opened, so it gets above all
numbered directories if, and only if, none that it did not get to has a greater number
than those it did.  Then all numbers from there on are free, and they stay free until a
generation takes them.  Such a generation is made in a new directory, and holds
nothing but the mark of an active store.
-/

namespace TrieStorage

namespace Generation

/-- What makes room has the same number, so no number gets lost. -/
theorem exists_place (P : Nat → Prop) {g : Generation} {l : List Generation} :
    (∃ x ∈ place g l, P x.id) ↔ P g.id ∨ ∃ x ∈ l, P x.id := by
  induction l with
  | nil => simp [place]
  | cons y l ih =>
    unfold place
    split
    · simp
    · split
      · next same => simp [same]
      · simp only [List.mem_cons, exists_eq_or_imp, ih]
        exact or_left_comm

theorem exists_le_iff {l : List Generation} (ascending : l.Pairwise fun a b => a.id < b.id)
    {n : Nat} : (∃ g ∈ l, n ≤ g.id) ↔ ∃ top, l.getLast? = some top ∧ n ≤ top.id := by
  refine ⟨fun ⟨g, mem, le⟩ => ?_, fun ⟨top, last, le⟩ => ⟨top, List.mem_of_getLast? last, le⟩⟩
  cases last : l.getLast? with
  | none =>
    rw [List.getLast?_eq_none_iff.1 last] at mem
    cases mem
  | some top => exact ⟨top, rfl, Nat.le_trans le (le_last ascending last mem)⟩

end Generation

namespace Discovery

variable {root : String} {opener : Opener} {names : List String} {found : List Generation}
  {s : Storage} {n : Nat}

/-! ## What a scan counts on from -/

/-- The names that a scan opens before it ends. -/
def opens (root : String) (opener : Opener) : List String → Storage → List String
  | [], _ => []
  | name :: names, s =>
    match Generation.idOfName? name with
    | none => []
    | some id =>
      match Generation.openIn root id opener s with
      | (.error _, _) => []
      | (.ok _, s) => name :: opens root opener names s

theorem exists_le_scan : (∃ g ∈ (scan root opener names found s).1.generations, n ≤ g.id) ↔
    (∃ g ∈ found, n ≤ g.id) ∨ ∃ name ∈ opens root opener names s,
      ∃ k, Generation.idOfName? name = some k ∧ n ≤ k := by
  induction names generalizing found s with
  | nil => simp [scan, opens]
  | cons name names ih =>
    unfold scan opens
    cases number : Generation.idOfName? name with
    | none => simp
    | some id =>
      dsimp only
      rcases opening : Generation.openIn root id opener s with ⟨e | g, s'⟩
      · simp
      · have own : g.id = id := by
          unfold Generation.openIn at opening
          dsimp only at opening
          split at opening <;> cases opening
          rfl
        simp only [ih, Generation.exists_place (n ≤ ·), own, List.mem_cons, exists_eq_or_imp, number,
          Option.some.injEq, exists_eq_left']
        exact or_assoc.trans or_left_comm

theorem lt_nextId_iff {d : Discovery} (ascending : d.generations.Pairwise fun a b => a.id < b.id) :
    n < d.nextId ↔ ∃ g ∈ d.generations, n ≤ g.id := by
  rw [Generation.exists_le_iff ascending]
  unfold nextId
  cases d.generations.getLast? with
  | none => simp
  | some g => simp only [Option.some.injEq, exists_eq_left', Nat.lt_succ_iff]

/-- The number after the greatest is above those that were opened, and those below them. -/
theorem lt_nextId_run (sound : s.disk.Sound) : n < (run root opener s).1.nextId ↔
    ∃ name ∈ opens root opener (scanOrder (s.disk.subdirectories root)) s,
      ∃ k, Generation.idOfName? name = some k ∧ n ≤ k := by
  rw [lt_nextId_iff (row_run s).ascending]
  by_cases directory : s.disk.entry? root = some .directory
  · unfold run
    rw [directory]
    dsimp only
    rw [exists_le_scan]
    simp
  · have bare : s.disk.subdirectories root = [] := by
      refine List.eq_nil_iff_forall_not_mem.2 fun name listed => directory ?_
      exact of_decide_eq_true (sound.isDirectory_of_mem_subdirectories listed)
    have nothing : (run root opener s).1.generations = [] := by
      unfold run
      split
      · rfl
      · rfl
      · next there => exact absurd there directory
    rw [nothing, bare]
    simp [scanOrder, opens]

/-- What a scan opens has been listed. -/
theorem mem_of_opens {name : String} (mem : name ∈ opens root opener names s) : name ∈ names := by
  induction names generalizing s with
  | nil => cases mem
  | cons first names ih =>
    unfold opens at mem
    split at mem
    · cases mem
    · split at mem
      · cases mem
      · exact (List.mem_cons.1 mem).elim (fun own => own ▸ List.mem_cons_self)
          fun later => List.mem_cons_of_mem first (ih later)

/-- The number to count on from is one of 32 bits if those of the directories leave one. -/
theorem nextId_run_lt (sound : s.disk.Sound)
    (few : ∀ name ∈ s.disk.subdirectories root, ∀ k, Generation.idOfName? name = some k →
      k + 1 < Generation.idBound) : (run root opener s).1.nextId < Generation.idBound := by
  by_contra full
  have last : Generation.idBound - 1 < (run root opener s).1.nextId := by
    unfold Generation.idBound at full ⊢
    omega
  obtain ⟨name, opened, k, number, le⟩ := (lt_nextId_run sound).1 last
  have := few name (List.mem_mergeSort.1 (mem_of_opens opened)) k number
  omega

/-- The scan gets to every numbered directory, or at least to one of a greater number. -/
def Reaches (root : String) (opener : Opener) (s : Storage) : Prop :=
  ∀ n, toString n ∈ s.disk.subdirectories root →
    ∃ name ∈ opens root opener (scanOrder (s.disk.subdirectories root)) s,
      ∃ k, Generation.idOfName? name = some k ∧ n ≤ k

theorem opens_of_error_eq_none (whole : (scan root opener names found s).1.error = none) :
    opens root opener names s = names ∧
      ∀ name ∈ names, ∃ k, Generation.idOfName? name = some k := by
  induction names generalizing found s with
  | nil => exact ⟨rfl, by simp⟩
  | cons name names ih =>
    unfold scan at whole
    unfold opens
    cases number : Generation.idOfName? name with
    | none =>
      rw [number] at whole
      cases whole
    | some id =>
      rw [number] at whole
      dsimp only at whole ⊢
      rcases opening : Generation.openIn root id opener s with ⟨e | g, s'⟩
      · rw [opening] at whole
        cases whole
      · rw [opening] at whole
        obtain ⟨all, numbers⟩ := ih whole
        exact ⟨congrArg (name :: ·) all, List.forall_mem_cons.2 ⟨⟨id, number⟩, numbers⟩⟩

theorem reaches_of_error_eq_none (sound : s.disk.Sound)
    (whole : (run root opener s).1.error = none) : Reaches root opener s := by
  intro n listed
  have directory : s.disk.entry? root = some .directory :=
    of_decide_eq_true (sound.isDirectory_of_mem_subdirectories listed)
  unfold run at whole
  rw [directory] at whole
  obtain ⟨all, numbers⟩ := opens_of_error_eq_none whole
  have mem : toString n ∈ scanOrder (s.disk.subdirectories root) := List.mem_mergeSort.2 listed
  obtain ⟨k, read⟩ := numbers _ mem
  rw [all]
  exact ⟨_, mem, k, read, Nat.le_of_eq (Generation.eq_of_idOfName?_toString read).symm⟩

end Discovery

/-! ## Numbers that stay free -/

namespace Disk

/-- All numbers from some number on are free, as far as stores can be opened for them. -/
def FreeFrom (disk : Disk) (root : String) (opener : Opener) (first : Nat) : Prop :=
  ∀ n, first ≤ n → Path.isUsable (opening opener (Generation.pathOf root n)) = true →
    disk.Vacant root n

end Disk

variable {root : String} {opener : Opener} {s s' : Storage} {n k : Nat}

theorem Disk.Vacant.openGeneration (h : s.disk.Vacant root k) (straight : Path.Straight root)
    (usable : Path.isUsable (opening opener (Generation.pathOf root k)) = true)
    {answer : Except StoreError LayerId}
    (opened : s.openGeneration opener (Generation.pathOf root n) = (answer, s'))
    (other : ∀ id, answer = .ok id → n ≠ k) : s'.disk.Vacant root k := by
  cases answer with
  | error e =>
    obtain ⟨disk, same | failed, rfl⟩ := Storage.openGeneration_error opened
    · rw [same]
      exact h
    · exact h.openAt straight usable failed (by simp)
  | ok id =>
    obtain ⟨store, disk, made, -, rfl⟩ := Storage.openGeneration_eq_ok opened
    exact h.openAt straight usable made fun _ _ => other id rfl

theorem Disk.Vacant.spared (h : s.disk.Vacant root k) {gone : List Generation}
    (spared : Legacy.Spared gone s s') : s'.disk.Vacant root k := by
  have fewer {p : Path} {entry : DiskEntry} (there : s'.disk.entryAt? p = some entry) :
      s.disk.entryAt? p = some entry := by
    rcases spared.entries p with same | ⟨none_, -⟩
    · rw [← same]
      exact there
    · rw [none_] at there
      cases there
  have shelf := shelf_congr spared.workDir root
  refine ⟨fun there => ?_, Option.eq_none_iff_forall_ne_some.2 fun entry there => ?_⟩
  · rw [shelf] at there
    exact h.directory (fewer there)
  · rw [shelf] at there
    have found := fewer there
    rw [h.log] at found
    cases found

namespace Discovery

theorem refusals_run : (run root opener s).2.refusals = s.refusals := by
  refine run_induction (P := fun _ s' => s'.refusals = s.refusals) (fun h opening => ?_)
    (fun h opening => ?_) rfl
  all_goals exact (Storage.grows_of_openGeneration opening).refusals.trans h

theorem vacant_run (h : s.disk.Vacant root n) (straight : Path.Straight root)
    (usable : Path.isUsable (Disk.opening opener (Generation.pathOf root n)) = true) :
    (¬ ∃ g ∈ (run root opener s).1.generations, n ≤ g.id) →
      (run root opener s).2.disk.Vacant root n := by
  refine run_induction
    (P := fun found s => (¬ ∃ g ∈ found, n ≤ g.id) → s.disk.Vacant root n)
    (fun vacant opening above => ?_) (fun {_ _ _ number _} vacant opening above => ?_) fun _ => h
  · exact (vacant above).openGeneration straight usable opening (by simp)
  · rw [Generation.exists_place (n ≤ ·), not_or] at above
    refine (vacant above.2).openGeneration straight usable opening fun _ _ => ?_
    have below : ¬ n ≤ number := above.1
    omega

/-- If a scan gets to all numbered directories, it counts on from where all is free. -/
theorem freeFrom_run (sound : s.disk.Sound) (straight : Path.Straight root)
    (reaches : Reaches root opener s) :
    (run root opener s).2.disk.FreeFrom root opener (run root opener s).1.nextId := by
  intro n first usable
  have vacant : s.disk.Vacant root n := by
    refine .of_sound sound straight usable fun listed => ?_
    have := (lt_nextId_run sound).2 (reaches n listed)
    omega
  refine vacant_run vacant straight usable fun found => ?_
  have := (lt_nextId_iff (row_run s).ascending).2 found
  omega

end Discovery

/-! ## Taking one -/

/-- What is put into an empty store is all that is in it. -/
theorem Layer.get_put_of_empty {layer : Layer} {dir : String}
    (empty : layer.store = .memory {} ∨ ∃ id, layer.store = .logged ⟨dir, some id, Table.empty⟩)
    {refusals : Refusals} {disk : Disk} {key value : Bytes}
    (taken : (layer.put refusals disk key value).1 = .ok ()) (other : Bytes) :
    (layer.put refusals disk key value).2.1.store.get other =
      .ok (if other = key then some value else none) := by
  have found : (Table.empty.insert key value).get? other =
      if other = key then some value else none := by
    simp only [Table.get?_insert, Table.get?_empty, eq_comm]
  unfold Layer.put at taken ⊢
  dsimp only at taken ⊢
  split at taken
  · cases taken
  · next allowed =>
    rw [if_neg allowed, ← found]
    rcases empty with empty | ⟨id, empty⟩
    all_goals
      rw [empty]
      rfl

/-- A generation that has just been made: its directory is new, and its store holds
nothing but the mark of an active store. -/
structure Generation.Fresh (g : Generation) (s s' : Storage) : Prop where
  unmade : s.disk.entryAt? (s.disk.place g.path) ≠ some .directory
  opened : g.Open s'
  contents : ∃ layer, s'.layer? g.layer = some layer ∧
    ∀ key, layer.store.get key = .ok (if key = activeKey then some activeValue else none)

namespace Legacy

variable {l l' : Legacy} {retention : Retention}

/-- Whether or not a generation is made, all numbers from the next one on are free. -/
theorem freeFrom_create (h : s.disk.FreeFrom root opener l.nextId) (straight : Path.Straight root)
    (free : s.refusals.refuse (l.nextName root) .put (some activeKey) = false)
    {answer : Except StoreError LayerId}
    (made : l.create root opener retention s = (answer, l', s')) :
    s'.disk.FreeFrom root opener l'.nextId := by
  intro n first usable
  cases answer with
  | error e =>
    obtain ⟨rfl, failed⟩ := create_eq_error free made
    exact (h n first usable).openGeneration straight usable failed (by simp)
  | ok id =>
    rcases create_cases made with ⟨e, failed, -, -⟩ |
      ⟨store, disk, opening, -, -, rfl, spared⟩
    · cases failed
    · have later : l.nextId + 1 ≤ n := first
      have vacant : disk.Vacant root n :=
        (h n (by omega) usable).openAt straight usable opening fun _ _ => by omega
      exact (vacant.sameNames (l.sameNames_marking root s store disk)).spared spared

theorem fresh_create (h : s.disk.FreeFrom root opener l.nextId) (straight : Path.Straight root)
    (shelved : l.Shelved root s) (arranged : l.Arranged s) (pos : 0 < retention.max) {id : LayerId}
    (made : l.create root opener retention s = (.ok id, l', s')) : (l.next root s).Fresh s s' := by
  obtain ⟨-, store, disk, opening, left⟩ := create_eq_ok pos arranged made
  have vacant := h l.nextId (Nat.le_refl _)
    (Disk.isUsable_of_openAt (Disk.pathOf_ne root l.nextId) opening)
  refine ⟨?_, ?_, _, left.layer, fun key => ?_⟩
  · rw [next, Disk.place_pathOf]
    exact vacant.directory
  · rcases shelved.create_cases arranged pos made with ⟨e, failed, -, -⟩ | ⟨-, advanced⟩
    · cases failed
    · refine advanced.row.opened _ ?_
      rw [advanced.generations]
      simp
  · exact Layer.get_put_of_empty (vacant.openAt_ok straight opening) left.marked key

end Legacy

end TrieStorage
