import TrieStorage.Proofs.Generation.Outcome
import TrieStorage.Proofs.Storage.Backed

/-!
# Scanning an archive

In an archive there is a log in the directory of each generation, and all names that are no
numbers come last.  So a scan opens every generation that is there, and leaves the disk as it is.
-/

namespace TrieStorage

namespace Generation

theorem mem_place_iff {g x : Generation} {l : List Generation} (fresh : ∀ y ∈ l, y.id ≠ g.id) :
    x ∈ place g l ↔ x = g ∨ x ∈ l := by
  refine ⟨mem_place, fun h => ?_⟩
  induction l with
  | nil => simpa [place] using h
  | cons y l ih =>
    have first := fresh y List.mem_cons_self
    unfold place
    split
    · exact List.mem_cons.2 h
    · rw [if_neg (Ne.symm first)]
      rw [List.mem_cons] at h ⊢
      rcases h with own | rfl | later
      · exact .inr (ih (fun z mem => fresh z (List.mem_cons_of_mem y mem)) (.inl own))
      · exact .inl rfl
      · exact .inr (ih (fun z mem => fresh z (List.mem_cons_of_mem y mem)) (.inr later))

end Generation

/-- The generations that have been found stand for what is in their directories. -/
def Discovery.Stands (found : List Generation) (id : LayerId) (v : Volume) : Prop :=
  ∃ g ∈ found, id = g.layer ∧ v = .generation g.id

namespace Site.Archive

variable {site : Site} {disk : Disk} {n : Nat}

/-- Where there are generations there is the directory that they are in. -/
theorem isDirectory_root (h : site.Archive disk) (there : site.Shelves disk n) :
    disk.isDirectory site.root = true := by
  obtain ⟨-, file, named⟩ := h.filled n there
  have directory := Disk.isDirectory_of_entry?_join (dir_ne (.generation n)) (by decide) named
  exact Disk.isDirectory_of_entry?_join h.apart.full (Path.pieces_toString n)
    (of_decide_eq_true directory)

theorem listed (h : site.Archive disk) (there : disk.isDirectory site.root = true)
    (name : String) : name ∈ disk.subdirectories site.root ↔
      disk.entryAt? (disk.shelf site.root ++ [name]) = some .directory := by
  rw [Disk.mem_subdirectories_iff h.unique there, Disk.shelf_eq h.apart.full]

end Site.Archive

namespace Storage.Backed

variable {site : Site} {stands : LayerId → Volume → Prop} {s : Storage} {names : List String}
  {found : List Generation}

/-- A generation that is there and has not been found yet is opened and found, and the disk stays
as it is. -/
theorem openIn (h : s.Backed site fun id v => stands id v ∨ Discovery.Stands found id v)
    (bare : ∀ id n, ¬ stands id (.generation n)) {n : Nat} (there : site.Shelves s.disk n)
    (apart : ∀ g ∈ found, g.id ≠ n) :
    ∃ g s', Generation.openIn site.root n .logged s = (.ok g, s') ∧ g.id = n ∧ s'.disk = s.disk ∧
      s'.Backed site fun id v => stands id v ∨ Discovery.Stands (g.place found) id v := by
  obtain ⟨small, file, named⟩ := h.archive.filled n there
  obtain ⟨store, opened, -⟩ := h.archive.openAt_of_entry? named
  have opening := Storage.openGeneration_of_openAt (s := s) (by rw [h.refusals]; rfl) opened
  have others (id : LayerId) :
      ¬ (stands id (.generation n) ∨ Discovery.Stands found id (.generation n)) := by
    rintro (stand | ⟨g, mem, -, same⟩)
    · exact bare id n stand
    · cases same
      exact apart g mem rfl
  obtain ⟨-, backed, -⟩ := h.openGeneration opening small others
  refine ⟨⟨n, site.dir (.generation n), .generation s.opened.length⟩, _, ?_, rfl, ?_,
    backed.congr fun id v => ?_⟩
  · have own : Generation.pathOf site.root n = site.dir (.generation n) := rfl
    unfold Generation.openIn
    dsimp only
    rw [own, opening]
  · rfl
  · have placed (x : Generation) := Generation.mem_place_iff (x := x)
      (g := ⟨n, site.dir (.generation n), .generation s.opened.length⟩) apart
    simp only [Discovery.Stands, placed, exists_eq_or_imp]
    rw [or_assoc, or_comm (a := id = _ ∧ _)]

/-- What a scan has found when it has come to the end of its names. -/
structure Scanned (site : Site) (stands : LayerId → Volume → Prop) (names : List String)
    (found : List Generation) (s : Storage) (result : Discovery × Storage) : Prop where
  backed : result.2.Backed site fun id v =>
    stands id v ∨ Discovery.Stands result.1.generations id v
  disk : result.2.disk = s.disk
  generations : ∀ n, (∃ g ∈ result.1.generations, g.id = n) ↔
    (∃ g ∈ found, g.id = n) ∨ toString n ∈ names

theorem scan (h : s.Backed site fun id v => stands id v ∨ Discovery.Stands found id v)
    (bare : ∀ id n, ¬ stands id (.generation n)) (sorted : names.Pairwise (· ≤ ·))
    (distinct : names.Nodup)
    (known : ∀ name ∈ names, Generation.Late name ∨
      ∃ n : Nat, name = toString n ∧ site.Shelves s.disk n)
    (fresh : ∀ g ∈ found, toString g.id ∉ names) :
    Scanned site stands names found s (Discovery.scan site.root .logged names found s) := by
  induction names generalizing found s with
  | nil => exact ⟨h, rfl, by simp [Discovery.scan]⟩
  | cons name names ih =>
    obtain ⟨first, ordered⟩ := List.pairwise_cons.1 sorted
    obtain ⟨new, rest⟩ := List.nodup_cons.1 distinct
    unfold Discovery.scan
    rcases known name List.mem_cons_self with late | ⟨n, rfl, there⟩
    · -- all that follows is behind the numbers as well
      rw [late.noNumber]
      refine ⟨h, rfl, fun n => (or_iff_left ?_).symm⟩
      intro mem
      rcases List.mem_cons.1 mem with own | later
      · rw [← own] at late
        exact Generation.not_late_toString n late
      · exact absurd (first _ later) (not_le.2 (late.behind n))
    · have apart (g : Generation) (mem : g ∈ found) : g.id ≠ n := by
        rintro rfl
        exact fresh g mem List.mem_cons_self
      obtain ⟨g, s', opened, number, disk, backed⟩ := h.openIn bare there apart
      rw [Generation.idOfName?_toString (h.archive.filled n there).1]
      dsimp only
      rw [opened]
      dsimp only
      have placed (x : Generation) : x ∈ g.place found ↔ x = g ∨ x ∈ found :=
        Generation.mem_place_iff (by rw [number]; exact apart)
      have later := ih backed ordered rest
        (fun name mem => by rw [disk]; exact known name (List.mem_cons_of_mem _ mem))
        fun x mem listed => by
          rcases (placed x).1 mem with rfl | old
          · rw [number] at listed
            exact new listed
          · exact fresh x old (List.mem_cons_of_mem _ listed)
      refine ⟨later.backed, later.disk.trans disk, fun k => ?_⟩
      rw [later.generations k]
      simp only [placed, exists_eq_or_imp, or_assoc, List.mem_cons, number]
      constructor
      · rintro (rfl | old | mem)
        · exact .inr (.inl rfl)
        · exact .inl old
        · exact .inr (.inr mem)
      · rintro (old | same | mem)
        · exact .inr (.inl old)
        · exact .inl (Path.toString_inj same).symm
        · exact .inr (.inr mem)

/-- Exactly the generations that are there are found. -/
theorem run (h : s.Backed site stands) (bare : ∀ id n, ¬ stands id (.generation n)) :
    (Discovery.run site.root .logged s).2.Backed site (fun id v => stands id v ∨
        Discovery.Stands (Discovery.run site.root .logged s).1.generations id v) ∧
      (Discovery.run site.root .logged s).2.disk = s.disk ∧
      ∀ n, site.Shelves s.disk n ↔
        ∃ g ∈ (Discovery.run site.root .logged s).1.generations, g.id = n := by
  have start : s.Backed site fun id v => stands id v ∨ Discovery.Stands [] id v :=
    h.congr fun id v => or_iff_left (by simp [Discovery.Stands])
  -- without the directory there is nothing to be found
  have nothing (missing : s.disk.isDirectory site.root = false) (n : Nat) :
      ¬ site.Shelves s.disk n := by
    intro there
    rw [h.archive.isDirectory_root there] at missing
    cases missing
  unfold Discovery.run
  split
  · next none_ =>
    refine ⟨start, rfl, fun n => iff_of_false (nothing ?_ n) (by simp)⟩
    simp [Disk.isDirectory, none_]
  · next file =>
    refine ⟨start, rfl, fun n => iff_of_false (nothing ?_ n) (by simp)⟩
    simp [Disk.isDirectory, file]
  · next there =>
    have there : s.disk.isDirectory site.root = true := decide_eq_true there
    have scanned := scan start bare
      (Discovery.pairwise_scanOrder (s.disk.subdirectories site.root))
      (Discovery.nodup_scanOrder (Disk.nodup_subdirectories h.archive.unique site.root))
      (fun name mem => ?_) (by simp)
    · refine ⟨scanned.backed, scanned.disk, fun n => ?_⟩
      rw [scanned.generations n, Discovery.mem_scanOrder, h.archive.listed there]
      simp [Site.Shelves]
    · rw [Discovery.mem_scanOrder, h.archive.listed there] at mem
      refine (h.archive.late name mem).imp_right ?_
      rintro ⟨n, rfl⟩
      exact ⟨n, rfl, mem⟩

end Storage.Backed

end TrieStorage
