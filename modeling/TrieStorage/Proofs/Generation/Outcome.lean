import Mathlib.Data.List.Sort
import TrieStorage.Proofs.Bytes.TextOrder
import TrieStorage.Proofs.Generation.Numbering
import TrieStorage.Proofs.Store.Hindrances

/-!
# What a scan comes to

A scan ends at the first name, in the order of bytes, that is no number or whose store cannot be
opened, and finds the numbers of all names before.  Whatever opens the stores, this is so as long
as it does not change on the way which of them can be opened: then what a scan comes to depends
on the names only, neither on the order in which they are listed nor on the files beside them.
The stores that are opened here change nothing of that kind.
-/

namespace TrieStorage

/-- What opens the stores of generations; it may go on differently after each. -/
abbrev Factory (σ : Type) := String → σ → Except StoreError LayerId × σ

/-- Opening stores of one kind. -/
def Storage.factory (opener : Opener) : Factory Storage := fun dir s => s.openGeneration opener dir

namespace Discovery

/-! ## Scanning with any factory -/

section

variable {σ : Type}

/-- Opens directories by name until one fails. -/
def scanWith (root : String) (factory : Factory σ) :
    List String → List Generation → σ → Discovery × σ
  | [], found, s => ({ generations := found }, s)
  | name :: names, found, s =>
    match Generation.idOfName? name with
    | none => ({ generations := found, error := some (.invalidGenerationName name) }, s)
    | some id =>
      match factory (Generation.pathOf root id) s with
      | (.error e, s) => ({ generations := found, error := some e }, s)
      | (.ok layer, s) =>
        scanWith root factory names
          (Generation.place ⟨id, Generation.pathOf root id, layer⟩ found) s

/-- Opens all generations under a root. -/
def runWith (root : String) (factory : Factory σ) (disk : Disk) (s : σ) : Discovery × σ :=
  match disk.entry? root with
  | none => ({}, s)
  | some (.file _) => ({ error := some (.notADirectory root) }, s)
  | some .directory => scanWith root factory (scanOrder (disk.subdirectories root)) [] s

/-- The states in which names are looked at. -/
def passed (root : String) (factory : Factory σ) : List String → σ → List σ
  | [], s => [s]
  | name :: names, s =>
    match Generation.idOfName? name with
    | none => [s]
    | some id =>
      match factory (Generation.pathOf root id) s with
      | (.error _, _) => [s]
      | (.ok _, s') => s :: passed root factory names s'

/-- What there is to say against a directory name: it is no number, or the store of its number
cannot be opened. -/
def complaint (root : String) (factory : Factory σ) (s : σ) (name : String) : Option StoreError :=
  match Generation.idOfName? name with
  | none => some (.invalidGenerationName name)
  | some id => failure? (factory (Generation.pathOf root id) s).1

/-- In all states in which names are looked at, the same of them can be opened as at the start. -/
def Steady (root : String) (factory : Factory σ) (start : σ) (names : List String) (s : σ) : Prop :=
  ∀ u ∈ passed root factory names s, ∀ name ∈ names,
    (complaint root factory u name).isSome = (complaint root factory start name).isSome

variable {root : String} {factory : Factory σ} {name : String} {names : List String}
  {found : List Generation} {s start : σ}

/-- A name that something is wrong with ends a scan; otherwise its generation is found, and the
scan goes on. -/
theorem scanWith_cons (root : String) (factory : Factory σ) (name : String) (names : List String)
    (found : List Generation) (s : σ) :
    (∃ e, complaint root factory s name = some e ∧
      (scanWith root factory (name :: names) found s).1 =
        { generations := found, error := some e } ∧
      passed root factory (name :: names) s = [s]) ∨
    complaint root factory s name = none ∧ ∃ id layer s', Generation.idOfName? name = some id ∧
      scanWith root factory (name :: names) found s = scanWith root factory names
        (Generation.place ⟨id, Generation.pathOf root id, layer⟩ found) s' ∧
      passed root factory (name :: names) s = s :: passed root factory names s' := by
  cases number : Generation.idOfName? name with
  | none =>
    refine .inl ⟨.invalidGenerationName name, ?_⟩
    simp only [complaint, scanWith, passed, number, true_and]
  | some id =>
    rcases opening : factory (Generation.pathOf root id) s with ⟨e | layer, s'⟩
    · refine .inl ⟨e, ?_⟩
      simp only [complaint, scanWith, passed, number, opening, failure?, true_and]
    · refine .inr ⟨?_, id, layer, s', rfl, ?_⟩
      all_goals simp only [complaint, scanWith, passed, number, opening, failure?, true_and]

theorem mem_passed_self (names : List String) : s ∈ passed root factory names s := by
  cases names with
  | nil => exact List.mem_singleton_self s
  | cons name names =>
    rcases scanWith_cons root factory name names [] s with
      ⟨e, -, -, on⟩ | ⟨-, id, layer, s', -, -, on⟩
    all_goals
      rw [on]
      exact List.mem_cons_self

theorem scanWith_induction {P : List Generation → Prop}
    (places : ∀ {found : List Generation} (id : Nat) (layer : LayerId), P found →
      P (Generation.place ⟨id, Generation.pathOf root id, layer⟩ found)) (first : P found) :
    P (scanWith root factory names found s).1.generations := by
  induction names generalizing found s with
  | nil => exact first
  | cons name names ih =>
    rcases scanWith_cons root factory name names found s with
      ⟨e, -, ended, -⟩ | ⟨-, id, layer, s', -, goesOn, -⟩
    · rw [ended]
      exact first
    · rw [goesOn]
      exact ih (places id layer first)

theorem Steady.cons (steady : Steady root factory start (name :: names) s)
    (found : List Generation) :
    (∃ e, complaint root factory s name = some e ∧ complaint root factory start name ≠ none ∧
      (scanWith root factory (name :: names) found s).1 =
        { generations := found, error := some e }) ∨
    complaint root factory start name = none ∧
      ∃ id layer s', Generation.idOfName? name = some id ∧
        scanWith root factory (name :: names) found s = scanWith root factory names
          (Generation.place ⟨id, Generation.pathOf root id, layer⟩ found) s' ∧
        passed root factory names s' ⊆ passed root factory (name :: names) s ∧
        Steady root factory start names s' := by
  have own := steady s (mem_passed_self _) name List.mem_cons_self
  rcases scanWith_cons root factory name names found s with
    ⟨e, said, ended, -⟩ | ⟨fine, id, layer, s', number, goesOn, on⟩
  · rw [said] at own
    exact .inl ⟨e, said, Option.isSome_iff_ne_none.1 own.symm, ended⟩
  · rw [fine] at own
    have more : passed root factory names s' ⊆ passed root factory (name :: names) s := by
      rw [on]
      exact List.subset_cons_self _ _
    refine .inr ⟨by simpa using own.symm, id, layer, s', number, goesOn, more, ?_⟩
    exact fun u mem other listed => steady u (more mem) other (List.mem_cons_of_mem name listed)

/-- The numbers that a scan finds are those of the names before all that something is wrong with. -/
theorem exists_scanWith_iff (sorted : names.Pairwise (· ≤ ·))
    (steady : Steady root factory start names s) {n : Nat} :
    (∃ g ∈ (scanWith root factory names found s).1.generations, g.id = n) ↔
      (∃ g ∈ found, g.id = n) ∨ ∃ name ∈ names, Generation.idOfName? name = some n ∧
        ∀ bad ∈ names, complaint root factory start bad ≠ none → name < bad := by
  induction names generalizing found s with
  | nil => simp [scanWith]
  | cons first names ih =>
    obtain ⟨least, sorted⟩ := List.pairwise_cons.1 sorted
    rcases steady.cons found with
      ⟨e, -, said, ended⟩ | ⟨fine, id, layer, s', number, goesOn, -, steady⟩
    · rw [ended]
      refine (or_iff_left ?_).symm
      rintro ⟨name, mem, -, before⟩
      -- the names are in order, so none comes before the first
      have less := before first List.mem_cons_self said
      rcases List.mem_cons.1 mem with rfl | later
      · exact lt_irrefl _ less
      · exact not_le_of_gt less (least name later)
    · have front : ∀ bad ∈ names, complaint root factory start bad ≠ none → first < bad := by
        refine fun bad mem said => lt_of_le_of_ne (least bad mem) ?_
        rintro rfl
        exact said fine
      rw [goesOn, ih sorted steady, Generation.exists_place (· = n)]
      simp only [List.mem_cons, exists_eq_or_imp, forall_eq_or_imp, fine, ne_eq, not_true,
        false_implies, true_and, number, Option.some.injEq]
      rw [and_iff_left front]
      exact or_assoc.trans or_left_comm

theorem error_scanWith_eq_none_iff (steady : Steady root factory start names s) :
    (scanWith root factory names found s).1.error = none ↔
      ∀ name ∈ names, complaint root factory start name = none := by
  induction names generalizing found s with
  | nil => simp [scanWith]
  | cons first names ih =>
    rw [List.forall_mem_cons]
    rcases steady.cons found with
      ⟨e, -, said, ended⟩ | ⟨fine, id, layer, s', -, goesOn, -, steady⟩
    · rw [ended]
      exact iff_of_false (Option.some_ne_none e) fun all => said all.1
    · rw [goesOn, ih steady, and_iff_right fine]

/-- What ends a scan is wrong with the first name that something is wrong with. -/
theorem exists_of_error_scanWith (sorted : names.Pairwise (· ≤ ·))
    (steady : Steady root factory start names s) {e : StoreError}
    (failed : (scanWith root factory names found s).1.error = some e) :
    ∃ name ∈ names, (∀ bad ∈ names, complaint root factory start bad ≠ none → name ≤ bad) ∧
      ∃ u ∈ passed root factory names s, complaint root factory u name = some e := by
  induction names generalizing found s with
  | nil => cases failed
  | cons first names ih =>
    obtain ⟨least, sorted⟩ := List.pairwise_cons.1 sorted
    rcases steady.cons found with
      ⟨e', said, -, ended⟩ | ⟨fine, id, layer, s', -, goesOn, more, steady⟩
    · rw [ended] at failed
      cases failed
      refine ⟨first, List.mem_cons_self, ?_, s, mem_passed_self _, said⟩
      exact List.forall_mem_cons.2 ⟨fun _ => le_refl first, fun bad mem _ => least bad mem⟩
    · rw [goesOn] at failed
      obtain ⟨name, mem, before, u, onWay, said⟩ := ih sorted steady failed
      refine ⟨name, List.mem_cons_of_mem first mem, ?_, u, more onWay, said⟩
      exact List.forall_mem_cons.2 ⟨fun bad => absurd fine bad, before⟩

/-! ## The whole scan -/

/-- What a scan comes to, told by the names and by what there is to say against each of them at
the start. -/
structure Outcome (root : String) (factory : Factory σ) (names : List String) (s : σ)
    (d : Discovery) : Prop where
  ascending : d.generations.Pairwise fun a b => a.id < b.id
  path : ∀ g ∈ d.generations, g.path = Generation.pathOf root g.id
  /-- The numbers found are those of the names before all that something is wrong with. -/
  found : ∀ n, (∃ g ∈ d.generations, g.id = n) ↔
    ∃ name ∈ names, Generation.idOfName? name = some n ∧
      ∀ bad ∈ names, complaint root factory s bad ≠ none → Bytes.ofText name < Bytes.ofText bad
  whole : d.error = none ↔ ∀ name ∈ names, complaint root factory s name = none
  /-- The error is what is then wrong with the first of these. -/
  error : ∀ e, d.error = some e → ∃ name ∈ names,
    (∀ bad ∈ names, complaint root factory s bad ≠ none →
      Bytes.ofText name ≤ Bytes.ofText bad) ∧
    ∃ u ∈ passed root factory (scanOrder names) s, complaint root factory u name = some e
  nextId : d.nextId = (d.generations.map Generation.id).max?.elim 0 (· + 1)

end

theorem nextId_eq {d : Discovery} (ascending : d.generations.Pairwise fun a b => a.id < b.id) :
    d.nextId = (d.generations.map Generation.id).max?.elim 0 (· + 1) := by
  unfold nextId
  cases last : d.generations.getLast? with
  | none =>
    rw [List.getLast?_eq_none_iff.1 last]
    rfl
  | some top =>
    have greatest : (d.generations.map Generation.id).max? = some top.id := by
      refine List.max?_eq_some_iff.2 ⟨List.mem_map_of_mem (List.mem_of_getLast? last), ?_⟩
      intro n mem
      obtain ⟨g, found, rfl⟩ := List.mem_map.1 mem
      exact Generation.le_last ascending last found
    rw [greatest]
    rfl

theorem pairwise_scanOrder (names : List String) : (scanOrder names).Pairwise (· ≤ ·) :=
  List.pairwise_mergeSort' (· ≤ ·) names

theorem mem_scanOrder {name : String} {names : List String} :
    name ∈ scanOrder names ↔ name ∈ names := List.mem_mergeSort

theorem nodup_scanOrder {names : List String} (distinct : names.Nodup) :
    (scanOrder names).Nodup := (List.mergeSort_perm names _).nodup_iff.2 distinct

theorem scanOrder_congr {names names' : List String} (same : names.Perm names') :
    scanOrder names = scanOrder names' := by
  have perm : (scanOrder names).Perm (scanOrder names') :=
    ((List.mergeSort_perm names _).trans same).trans (List.mergeSort_perm names' _).symm
  exact perm.eq_of_pairwise (fun _ _ _ _ => le_antisymm) (pairwise_scanOrder names)
    (pairwise_scanOrder names')

section

variable {σ : Type} {root : String} {factory : Factory σ} {names : List String} {s : σ}

theorem outcome_scanWith (steady : Steady root factory s (scanOrder names) s) :
    Outcome root factory names s (scanWith root factory (scanOrder names) [] s).1 := by
  have sorted := pairwise_scanOrder names
  have row : (scanWith root factory (scanOrder names) [] s).1.generations.Pairwise
        (fun a b => a.id < b.id) ∧
      ∀ g ∈ (scanWith root factory (scanOrder names) [] s).1.generations,
        g.path = Generation.pathOf root g.id := by
    refine scanWith_induction (P := fun l => l.Pairwise (fun a b => a.id < b.id) ∧
      ∀ g ∈ l, g.path = Generation.pathOf root g.id) (fun id layer ⟨ascending, path⟩ => ?_)
      ⟨.nil, by simp⟩
    refine ⟨Generation.pairwise_place ascending, fun g mem => ?_⟩
    rcases Generation.mem_place mem with rfl | old
    · rfl
    · exact path g old
  refine ⟨row.1, row.2, fun n => ?_, ?_, fun e failed => ?_, nextId_eq row.1⟩
  · rw [exists_scanWith_iff sorted steady, or_iff_right (by simp)]
    simp only [mem_scanOrder, Bytes.ofText_lt_iff]
  · rw [error_scanWith_eq_none_iff steady]
    simp only [mem_scanOrder]
  · simpa only [mem_scanOrder, Bytes.ofText_le_iff] using
      exists_of_error_scanWith sorted steady failed

theorem runWith_eq {disk : Disk} (there : disk.entry? root = some .directory) :
    runWith root factory disk s =
      scanWith root factory (scanOrder (disk.subdirectories root)) [] s := by
  unfold runWith
  rw [there]

end

/-! ## Scanning here -/

variable {root : String} {opener : Opener} {names : List String} {found : List Generation}
  {s s' : Storage}

theorem scan_eq_scanWith :
    scan root opener names found s = scanWith root (Storage.factory opener) names found s := by
  induction names generalizing found s with
  | nil => rfl
  | cons name names ih =>
    unfold scan scanWith Generation.openIn Storage.factory
    cases Generation.idOfName? name with
    | none => rfl
    | some id =>
      dsimp only
      rcases s.openGeneration opener (Generation.pathOf root id) with ⟨e | layer, s'⟩
      · rfl
      · exact ih

theorem run_eq_runWith (root : String) (opener : Opener) (s : Storage) :
    run root opener s = runWith root (Storage.factory opener) s.disk s := by
  unfold run runWith
  rcases s.disk.entry? root with _ | _ | _
  · rfl
  · exact scan_eq_scanWith
  · rfl

theorem failure?_openGeneration (s : Storage) (opener : Opener) (dir : String) :
    failure? (s.openGeneration opener dir).1 =
      if s.refusals.refuse (.generation (Path.lastName dir)) .opening none then
        some (Refusals.report (.generation (Path.lastName dir)) .opening)
      else failure? (opener.openAt s.disk dir).1 := by
  unfold Storage.openGeneration
  dsimp only
  split
  · rfl
  · split
    · next opening => rw [opening]; rfl
    · next opening => rw [opening]; rfl

theorem complaint_congr {opener' : Opener} {name : String} (refusals : s'.refusals = s.refusals)
    (opening : ∀ id, Generation.idOfName? name = some id →
      failure? (opener'.openAt s'.disk (Generation.pathOf root id)).1 =
        failure? (opener.openAt s.disk (Generation.pathOf root id)).1) :
    complaint root (Storage.factory opener') s' name =
      complaint root (Storage.factory opener) s name := by
  unfold complaint Storage.factory
  split
  · rfl
  · next id number =>
    rw [failure?_openGeneration, failure?_openGeneration, refusals, opening id number]

/-- Opening a store changes nothing about what there is to say against any name. -/
theorem complaint_openGeneration (there : s.disk.isDirectory root = true) {id : Nat}
    {layer : LayerId}
    (opened : s.openGeneration opener (Generation.pathOf root id) = (.ok layer, s')) :
    s'.disk.isDirectory root = true ∧
      complaint root (Storage.factory opener) s' = complaint root (Storage.factory opener) s := by
  obtain ⟨store, disk, opening, -, rfl⟩ := Storage.openGeneration_eq_ok opened
  refine ⟨(Disk.extends_openAt opening).isDirectory there, funext fun name => ?_⟩
  refine complaint_congr rfl fun k _ => ?_
  exact Disk.failure?_openAt_beside (Path.pieces_toString id) Path.toString_ne there
    (Path.pieces_toString k) Path.toString_ne opening

theorem complaint_of_passed (there : s.disk.isDirectory root = true) {u : Storage}
    (mem : u ∈ passed root (Storage.factory opener) names s) :
    complaint root (Storage.factory opener) u = complaint root (Storage.factory opener) s := by
  induction names generalizing s with
  | nil => rw [List.mem_singleton.1 mem]
  | cons name names ih =>
    unfold passed at mem
    split at mem
    · rw [List.mem_singleton.1 mem]
    · split at mem
      · rw [List.mem_singleton.1 mem]
      · next opening =>
        obtain ⟨there', kept⟩ := complaint_openGeneration there opening
        rcases List.mem_cons.1 mem with rfl | later
        · rfl
        · exact (ih there' later).trans kept

/-- Two scans under one root come to the same if the names and what there is to say against each
of them are the same. -/
theorem scan_congr {opener' : Opener} (there : s.disk.isDirectory root = true)
    (there' : s'.disk.isDirectory root = true) (opened : s'.opened.length = s.opened.length)
    (same : ∀ name ∈ names, complaint root (Storage.factory opener') s' name =
      complaint root (Storage.factory opener) s name) :
    (scan root opener' names found s').1 = (scan root opener names found s).1 := by
  induction names generalizing found s s' with
  | nil => rfl
  | cons name names ih =>
    obtain ⟨own, rest⟩ := List.forall_mem_cons.1 same
    unfold complaint Storage.factory at own
    unfold scan Generation.openIn
    cases number : Generation.idOfName? name with
    | none => rfl
    | some id =>
      rw [number] at own
      dsimp only at own ⊢
      -- both scans open the store, or both fail with the same error
      rcases opening : s.openGeneration opener (Generation.pathOf root id) with ⟨e | layer, t⟩ <;>
        rcases opening' : s'.openGeneration opener' (Generation.pathOf root id) with
          ⟨e' | layer', t'⟩ <;>
        rw [opening, opening'] at own <;>
        simp only [failure?, reduceCtorEq, Option.some.injEq] at own
      · rw [own]
      · obtain ⟨there, kept⟩ := complaint_openGeneration there opening
        obtain ⟨there', kept'⟩ := complaint_openGeneration there' opening'
        obtain ⟨store, disk, -, rfl, rfl⟩ := Storage.openGeneration_eq_ok opening
        obtain ⟨store', disk', -, rfl, rfl⟩ := Storage.openGeneration_eq_ok opening'
        rw [opened]
        refine ih there there' (by simp [opened]) fun other mem => ?_
        rw [kept, kept']
        exact rest other mem

/-- A file beside the directories is passed over, unless it is in the place of a generation. -/
theorem run_link (there : s.disk.entry? root = some .directory) {name : String} (file : FileId)
    (aside : ∀ directory ∈ s.disk.subdirectories root,
      (Generation.idOfName? directory).map toString ≠ some name) :
    (run root opener { s with
      disk := s.disk.link (s.disk.place root ++ [name]) (.file file) }).1 =
        (run root opener s).1 := by
  have more := Disk.extends_link s.disk (s.disk.place root ++ [name]) (.file file)
  have there' := more.entry? there
  obtain ⟨path, located, -⟩ := Disk.entry?_eq_some.1 there
  have listed : (s.disk.link (s.disk.place root ++ [name]) (.file file)).subdirectories root =
      s.disk.subdirectories root := by
    unfold Disk.subdirectories
    rw [more.locate located, located]
    simp [Disk.link]
  unfold run
  dsimp only
  rw [there', there, listed]
  refine scan_congr (decide_eq_true there) (decide_eq_true there') rfl fun directory mem => ?_
  refine complaint_congr rfl fun id number => ?_
  have plain := Path.pieces_toString id
  have own := Path.toString_ne (n := id)
  unfold Generation.pathOf
  rw [Disk.failure?_openAt_join plain own (decide_eq_true there),
    Disk.failure?_openAt_join plain own (decide_eq_true there'), Disk.place_congr more.workDir]
  have ne : toString id ≠ name := by
    simpa [number] using aside directory (mem_scanOrder.1 mem)
  rw [Disk.hindrance_congr (Disk.entryAt?_link_of_ne ?_ _) (Disk.entryAt?_link_of_ne ?_ _)
    fun _ => rfl]
  · simpa using ne
  · simp

/-- As long as it does not change which stores can be opened, what a scan comes to is told by the
directory names: in whatever order they are listed, and whatever files are beside them.  A scan
here is such a scan, and nothing changes. -/
theorem run_determined :
    (∀ {σ : Type} (root : String) (factory : Factory σ) (disk : Disk) (s : σ),
      disk.entry? root = some .directory →
      Steady root factory s (scanOrder (disk.subdirectories root)) s →
      Outcome root factory (disk.subdirectories root) s (runWith root factory disk s).1 ∧
      ∀ disk' : Disk, disk'.entry? root = some .directory →
        (disk'.subdirectories root).Perm (disk.subdirectories root) →
        runWith root factory disk' s = runWith root factory disk s) ∧
    ∀ (root : String) (opener : Opener) (s : Storage), s.disk.entry? root = some .directory →
      run root opener s = runWith root (Storage.factory opener) s.disk s ∧
      (∀ u ∈ passed root (Storage.factory opener) (scanOrder (s.disk.subdirectories root)) s,
        complaint root (Storage.factory opener) u = complaint root (Storage.factory opener) s) ∧
      ∀ (name : String) (file : FileId), (∀ directory ∈ s.disk.subdirectories root,
          (Generation.idOfName? directory).map toString ≠ some name) →
        (run root opener { s with
          disk := s.disk.link (s.disk.place root ++ [name]) (.file file) }).1 =
            (run root opener s).1 := by
  refine ⟨fun root factory disk s there steady => ?_, fun root opener s there => ?_⟩
  · rw [runWith_eq there]
    refine ⟨outcome_scanWith steady, fun disk' there' same => ?_⟩
    rw [runWith_eq there', scanOrder_congr same]
  · exact ⟨run_eq_runWith root opener s, fun u => complaint_of_passed (decide_eq_true there),
      fun _ file => run_link there file⟩

/-- Four directories under a root, listed in no special order, and a file. -/
def fourDirectories : Storage where
  disk :=
    { entries :=
        [(["gens"], .directory), (["gens", "7"], .directory), (["gens", "2"], .directory),
          (["gens", "notes.txt"], .file 0), (["gens", "2-old"], .directory),
          (["gens", "10"], .directory)]
      files := [[104, 105]] }
  main := { name := .main, store := .memory {} }
  db := { name := .db, store := .memory {} }
  checkpoints := { name := .checkpoints, store := .memory {} }

/-- The same directories in their order, and no file. -/
def tidyDisk : Disk where
  entries :=
    [(["gens"], .directory), (["gens", "10"], .directory), (["gens", "2"], .directory),
      (["gens", "2-old"], .directory), (["gens", "7"], .directory)]

/-- The name that is no number comes before that of the seventh generation, which is not found.
Listed in their order, without the file, the directories come to the same. -/
theorem fourDirectories_run :
    (run "gens" .logged fourDirectories).1.generations.map Generation.id = [2, 10] ∧
      (run "gens" .logged fourDirectories).1.error = some (.invalidGenerationName "2-old") ∧
      (run "gens" .logged fourDirectories).1.nextId = 11 ∧
      runWith "gens" (Storage.factory .logged) tidyDisk fourDirectories =
        run "gens" .logged fourDirectories := by
  have there : fourDirectories.disk.entry? "gens" = some .directory := by decide +kernel
  have tidy : tidyDisk.entry? "gens" = some .directory := by decide +kernel
  obtain ⟨own, kept, -⟩ := run_determined.2 "gens" .logged fourDirectories there
  obtain ⟨-, listing⟩ := run_determined.1 "gens" (Storage.factory .logged) fourDirectories.disk
    fourDirectories there fun u mem name _ => by rw [kept u mem]
  have same := listing tidyDisk tidy (by decide +kernel)
  rw [← own] at same
  have sorted : scanOrder (tidyDisk.subdirectories "gens") = ["10", "2", "2-old", "7"] :=
    List.mergeSort_of_pairwise (by decide +kernel)
  refine ⟨?_, ?_, ?_, same⟩
  all_goals
    rw [← same, runWith_eq tidy, sorted]
    decide +kernel

end Discovery

end TrieStorage
