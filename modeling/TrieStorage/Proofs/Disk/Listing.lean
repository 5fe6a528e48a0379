import TrieStorage.Proofs.Disk.Places

/-!
# What is listed in a directory

On a disk where whatever has a name lies in a directory, a text without steps back
can be followed to every directory, and exactly what is in there is listed.
-/

namespace TrieStorage

namespace Disk

variable {disk disk' : Disk}

theorem entryAt?_eq_some {place : Path} {name : String} {entry : DiskEntry}
    (there : disk.entryAt? (place ++ [name]) = some entry) :
    ∃ e ∈ disk.entries, e.1 = place ++ [name] ∧ e.2 = entry := by
  unfold entryAt? at there
  rw [if_neg (by simp)] at there
  obtain ⟨e, found, kind⟩ := Option.map_eq_some_iff.1 there
  exact ⟨e, List.mem_of_find?_eq_some found, by simpa using List.find?_some found, kind⟩

/-- Whatever has a name lies in a directory, under a name that can be looked up. -/
structure Sound (disk : Disk) : Prop where
  above : ∀ e ∈ disk.entries, disk.entryAt? e.1.dropLast = some .directory
  short : ∀ e ∈ disk.entries, ∀ name ∈ e.1.getLast?, name.utf8ByteSize ≤ Path.maxNameSize

instance : Decidable disk.Sound :=
  decidable_of_iff
    ((∀ e ∈ disk.entries, disk.entryAt? e.1.dropLast = some .directory) ∧
      ∀ e ∈ disk.entries, ∀ name ∈ e.1.getLast?, name.utf8ByteSize ≤ Path.maxNameSize)
    ⟨fun h => ⟨h.1, h.2⟩, fun h => ⟨h.above, h.short⟩⟩

namespace Sound

variable {p q : Path} {name : String} {entry : DiskEntry}

theorem sameNames (h : disk.Sound) (names : disk.SameNames disk') : disk'.Sound := by
  refine ⟨fun e mem => ?_, fun e mem => ?_⟩
  all_goals rw [names.entries] at mem
  · rw [names.entryAt?]
    exact h.above e mem
  · exact h.short e mem

theorem parent (h : disk.Sound) (there : disk.entryAt? (p ++ [name]) = some entry) :
    disk.entryAt? p = some .directory := by
  obtain ⟨e, mem, at_, -⟩ := entryAt?_eq_some there
  have above := h.above e mem
  rw [at_, List.dropLast_concat] at above
  exact above

theorem fits (h : disk.Sound) (there : disk.entryAt? (p ++ [name]) = some entry) :
    name.utf8ByteSize ≤ Path.maxNameSize := by
  obtain ⟨e, mem, at_, -⟩ := entryAt?_eq_some there
  exact h.short e mem name (by rw [at_, List.getLast?_concat]; rfl)

theorem directory (h : disk.Sound) (below : p <+: q) (there : disk.entryAt? q = some .directory) :
    disk.entryAt? p = some .directory := by
  obtain ⟨more, rfl⟩ := below
  induction more generalizing p with
  | nil =>
    rw [List.append_nil] at there
    exact there
  | cons name more ih =>
    have next : disk.entryAt? (p ++ [name]) = some .directory := by
      refine ih ?_
      rw [List.append_assoc]
      exact there
    exact h.parent next

theorem follow (h : disk.Sound) {place : Path} {names : List String} (onward : ".." ∉ names)
    (there : disk.entryAt? (Path.resolve place names) = some .directory) :
    disk.follow place names = .ok (Path.resolve place names) := by
  induction names generalizing place with
  | nil => rfl
  | cons name rest ih =>
    have here := h.directory (Path.prefix_resolve onward place) there
    simp only [List.mem_cons, not_or] at onward
    unfold Path.resolve at there ⊢
    unfold Disk.follow step
    rw [here]
    dsimp only
    by_cases stay : name = "" ∨ name = "."
    · rw [if_pos stay] at there ⊢
      rw [if_pos stay]
      exact ih onward.2 there
    · rw [if_neg stay, if_neg (Ne.symm onward.1)] at there ⊢
      rw [if_neg stay, if_neg (Ne.symm onward.1)]
      have next := h.directory (Path.prefix_resolve onward.2 _) there
      rw [if_pos (h.fits next)]
      exact ih onward.2 there

theorem isDirectory (h : disk.Sound) {text : String} (usable : Path.isUsable text = true)
    (straight : Path.Straight text)
    (there : disk.entryAt? (disk.place text) = some .directory) :
    disk.isDirectory text = true := by
  refine decide_eq_true (entry?_eq_some.2 ⟨disk.place text, ?_, there⟩)
  obtain ⟨place, start⟩ : ∃ place, disk.start? text = some place := by
    rw [start?_eq straight.full]
    exact ⟨_, rfl⟩
  have same : disk.place text = Path.resolve place (Path.names text) := by
    unfold Disk.place
    rw [start]
    rfl
  rw [same] at there ⊢
  simp only [locate, way, usable, if_true, start]
  exact h.follow straight.onward there

end Sound

/-- Nothing is listed but in directories. -/
theorem Sound.isDirectory_of_mem_subdirectories (h : disk.Sound) {text name : String}
    (listed : name ∈ disk.subdirectories text) : disk.isDirectory text = true := by
  unfold subdirectories at listed
  split at listed
  · cases listed
  · next path located =>
    obtain ⟨e, mem, own⟩ := List.mem_filterMap.1 listed
    split at own
    · next under =>
      have above := h.above e mem
      rw [under.1] at above
      exact decide_eq_true (entry?_eq_some.2 ⟨path, located, above⟩)
    · cases own

/-- A directory in a directory is listed there. -/
theorem mem_subdirectories {text name : String} (directory : disk.isDirectory text = true)
    (there : disk.entryAt? (disk.place text ++ [name]) = some .directory) :
    name ∈ disk.subdirectories text := by
  obtain ⟨path, located, -⟩ := entry?_eq_some.1 (of_decide_eq_true directory)
  obtain rfl := eq_place_of_locate located
  obtain ⟨e, mem, at_, kind⟩ := entryAt?_eq_some there
  simp only [subdirectories, located]
  refine List.mem_filterMap.2 ⟨e, mem, ?_⟩
  rw [at_, kind, if_pos (by simp), List.getLast?_concat]

end Disk

end TrieStorage
