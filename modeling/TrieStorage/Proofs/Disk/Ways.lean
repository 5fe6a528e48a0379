import Mathlib.Data.List.Nodup
import TrieStorage.Proofs.Disk.Files
import TrieStorage.Proofs.Disk.Listing

/-!
# The way to a place

A text leads through places, one for each front of its names.  Whether it leads anywhere, and to
what, depends on these places only; and directories made on the way to somewhere are made at
these places.
-/

namespace TrieStorage

namespace Disk

variable {disk disk' : Disk} {text base name : String} {p : Path}

/-- The text leads through the place, as far as it leads anywhere. -/
def Passes (disk : Disk) (text : String) (p : Path) : Prop :=
  ∃ front, front <+: Path.names text ∧ p = Path.resolve ((disk.start? text).getD []) front

theorem passes_place (disk : Disk) (text : String) : disk.Passes text (disk.place text) :=
  ⟨Path.names text, List.prefix_rfl, rfl⟩

/-- Without steps back, all places on the way are above its end. -/
theorem prefix_of_passes (straight : Path.Straight text) (passes : disk.Passes text p) :
    p <+: disk.place text := by
  obtain ⟨front, begins, rfl⟩ := passes
  obtain ⟨back, whole⟩ := begins
  have onward := straight.onward
  rw [← whole] at onward
  unfold place
  rw [← whole, Path.resolve_append]
  exact Path.prefix_resolve (fun mem => onward (List.mem_append_right _ mem)) _

theorem passes_congr (same : disk'.workDir = disk.workDir) :
    disk'.Passes text p ↔ disk.Passes text p := by
  unfold Passes start?
  rw [same]

/-- Only the places on the way matter. -/
theorem follow_congr {here : Path} {names : List String}
    (same : ∀ front, front <+: names →
      disk'.entryAt? (Path.resolve here front) = disk.entryAt? (Path.resolve here front)) :
    disk'.follow here names = disk.follow here names := by
  induction names generalizing here with
  | nil => rfl
  | cons name rest ih =>
    have start : disk'.entryAt? here = disk.entryAt? here := same [] (List.nil_prefix)
    have step : disk'.step here name = disk.step here name := by
      unfold Disk.step
      rw [start]
    unfold Disk.follow
    rw [step]
    cases stepped : disk.step here name with
    | error o => rfl
    | ok next =>
      apply ih
      intro front begins
      have later := same (name :: front) (List.cons_prefix_cons.2 ⟨rfl, begins⟩)
      have first : Path.resolve here (name :: front) = Path.resolve next front := by
        rw [step_eq_resolve stepped, ← Path.resolve_append]
        rfl
      rw [first] at later
      exact later

theorem entry?_congr (workDir : disk'.workDir = disk.workDir)
    (same : ∀ p, disk.Passes text p → disk'.entryAt? p = disk.entryAt? p) :
    disk'.entry? text = disk.entry? text := by
  have way : disk'.way text = disk.way text := by
    unfold Disk.way start?
    rw [workDir]
  have located : disk'.locate text = disk.locate text := by
    unfold locate
    rw [way]
    rcases found : disk.way text with o | ⟨here, names⟩
    · rfl
    · obtain ⟨rfl, rfl, -⟩ := way_eq_ok found
      apply follow_congr
      intro front begins
      exact same _ ⟨front, begins, rfl⟩
  unfold Disk.entry?
  rw [located]
  cases found : disk.locate text with
  | error o => rfl
  | ok path =>
    rw [eq_place_of_locate found]
    exact same _ (disk.passes_place text)

/-- The way to something in a directory is the way to the directory, and one step more. -/
theorem passes_join (full : base ≠ "") (plain : Path.pieces name.toList = [name.toList])
    (passes : disk.Passes (Path.join base name) p) :
    disk.Passes base p ∨ p = disk.place (Path.join base name) := by
  obtain ⟨front, begins, rfl⟩ := passes
  obtain ⟨above, joined, same⟩ := Path.names_join full plain
  have whole : above <+: Path.names base := by
    rcases same with same | same
    · exact same ▸ List.prefix_rfl
    · rw [same]
      exact List.prefix_append ..
  rw [joined] at begins
  rw [start?_join full]
  rcases List.prefix_concat_iff.1 begins with last | before
  · right
    unfold place
    rw [start?_join full, joined, last]
  · exact .inl ⟨front, before.trans whole, rfl⟩

theorem start?_of_prefix_names {path : String} (full : text ≠ "") (some_ : path ≠ "")
    (begins : Path.names path <+: Path.names text) : disk.start? path = disk.start? text := by
  obtain ⟨more, same⟩ := begins
  obtain ⟨name, names, first⟩ := List.exists_cons_of_ne_nil (l := Path.names path)
    (by simp [Path.names, Path.pieces_ne_nil])
  rw [start?_eq some_, start?_eq full, ← same, first]
  rfl

theorem passes_of_mem_parents {path : String} (full : text ≠ "")
    (mem : path ∈ Path.parents text) : disk.Passes text (disk.place path) := by
  obtain ⟨begins, some_⟩ := Path.mem_parents mem
  refine ⟨Path.names path, begins, ?_⟩
  unfold place
  rw [start?_of_prefix_names full some_ begins]

/-- Opening the store of a directory gives no name to a place that is neither on the way to the
directory nor that of the log. -/
theorem only_openAt {opener : Opener} {dir : String} {answer : Except StoreError Store}
    (full : dir ≠ "") (h : opener.openAt disk dir = (answer, disk')) (aside : ¬ disk.Passes dir p)
    (other : p ≠ disk.place dir ++ [LoggedStore.logName]) :
    disk'.entryAt? p = disk.entryAt? p := by
  apply (linked_openAt full h).only
  simp only [List.mem_cons, not_or]
  refine ⟨?_, other, ?_⟩
  · rintro rfl
    exact aside (disk.passes_place dir)
  · intro mem
    obtain ⟨path, inParents, rfl⟩ := List.mem_map.1 mem
    exact aside (passes_of_mem_parents full inParents)

/-! ## Names that are given once -/

/-- No place has two names in the list of names. -/
def Unique (disk : Disk) : Prop := (disk.entries.map Prod.fst).Nodup

theorem mem_entries (below : p ≠ []) (unique : disk.Unique) {entry : DiskEntry} :
    (p, entry) ∈ disk.entries ↔ disk.entryAt? p = some entry := by
  unfold entryAt?
  rw [if_neg below, Option.map_eq_some_iff]
  constructor
  · intro mem
    refine ⟨(p, entry), ?_, rfl⟩
    have some_ : (disk.entries.find? fun e => e.1 = p).isSome :=
      List.find?_isSome.2 ⟨(p, entry), mem, by simp⟩
    obtain ⟨e, found⟩ := Option.isSome_iff_exists.1 some_
    have own : e.1 = p := by simpa using List.find?_some found
    have same := List.inj_on_of_nodup_map unique (List.mem_of_find?_eq_some found) mem own
    rw [← same]
    exact found
  · rintro ⟨e, found, rfl⟩
    have own : e.1 = p := by simpa using List.find?_some found
    rw [← own]
    exact List.mem_of_find?_eq_some found

theorem unique_link (unique : disk.Unique) (free : disk.entryAt? p = none) (entry : DiskEntry) :
    (disk.link p entry).Unique := by
  unfold Unique link
  rw [List.map_append, List.map_singleton]
  apply List.nodup_append.2
  refine ⟨unique, List.nodup_singleton p, ?_⟩
  intro q mem q' own
  rw [List.mem_singleton.1 own]
  rintro rfl
  obtain ⟨e, inEntries, rfl⟩ := List.mem_map.1 mem
  unfold entryAt? at free
  split at free
  · cases free
  · rw [Option.map_eq_none_iff, List.find?_eq_none] at free
    exact free e inEntries (decide_eq_true rfl)

theorem unique_createDirectories {answer : Bool} (unique : disk.Unique)
    (h : disk.createDirectories text = (answer, disk')) : disk'.Unique := by
  refine createDirectories_induction (P := Unique) ?_ unique h
  intro before after text still made
  obtain ⟨free, rfl⟩ := makeDirectory_eq_ok made
  exact unique_link still free .directory

theorem unique_openFile {id : FileId} (unique : disk.Unique)
    (h : disk.openFile text = some (id, disk')) : disk'.Unique := by
  rcases openFile_cases h with ⟨-, rfl⟩ | ⟨free, -, rfl⟩
  · exact unique
  · apply unique_link
    · exact unique
    · exact free

theorem unique_openAt {opener : Opener} {dir : String} {answer : Except StoreError Store}
    (unique : disk.Unique) (h : opener.openAt disk dir = (answer, disk')) : disk'.Unique := by
  cases Opener.opened h with
  | unmade made | memory made | unread made _ | unopened made _ _ =>
    exact unique_createDirectories unique made
  | logged made _ file => exact unique_openFile (unique_createDirectories unique made) file

theorem unique_removeTree (unique : disk.Unique) (h : disk.removeTree text = some disk') :
    disk'.Unique := by
  unfold removeTree at h
  split at h
  · cases h
  · split at h
    · cases h
    · cases h
      exact unique.sublist (List.filter_sublist.map _)

/-! ## What is in a directory -/

theorem mem_subdirectories_iff (unique : disk.Unique) (there : disk.isDirectory text = true) :
    name ∈ disk.subdirectories text ↔
      disk.entryAt? (disk.place text ++ [name]) = some .directory := by
  refine ⟨?_, mem_subdirectories there⟩
  obtain ⟨path, located, -⟩ := entry?_eq_some.1 (of_decide_eq_true there)
  obtain rfl := eq_place_of_locate located
  intro listed
  simp only [subdirectories, located] at listed
  obtain ⟨e, mem, own⟩ := List.mem_filterMap.1 listed
  split at own
  · next under =>
    obtain ⟨above, kind⟩ := under
    obtain ⟨front, place⟩ := List.getLast?_eq_some_iff.1 own
    rw [place, List.dropLast_concat] at above
    rw [above] at place
    rw [← mem_entries (by simp) unique, ← place, ← kind]
    exact mem
  · cases own

theorem nodup_subdirectories (unique : disk.Unique) (text : String) :
    (disk.subdirectories text).Nodup := by
  unfold subdirectories
  split
  · exact List.nodup_nil
  · next path _ =>
    have apart : disk.entries.Pairwise fun e e' => e.1 ≠ e'.1 := List.pairwise_map.1 unique
    refine List.pairwise_filterMap.2 (apart.imp ?_)
    intro e e' ne name own name' own' same
    subst same
    simp only [Option.ite_none_right_eq_some] at own own'
    obtain ⟨⟨above, -⟩, last⟩ := own
    obtain ⟨⟨above', -⟩, last'⟩ := own'
    obtain ⟨front, place⟩ := List.getLast?_eq_some_iff.1 last
    obtain ⟨front', place'⟩ := List.getLast?_eq_some_iff.1 last'
    rw [place, List.dropLast_concat] at above
    rw [place', List.dropLast_concat] at above'
    exact ne (by rw [place, place', above, above'])

theorem exists_removeTree (there : disk.isDirectory text = true) (below : disk.place text ≠ []) :
    ∃ disk', disk.removeTree text = some disk' := by
  obtain ⟨path, located, directory⟩ := entry?_eq_some.1 (of_decide_eq_true there)
  obtain rfl := eq_place_of_locate located
  unfold removeTree
  rw [located]
  dsimp only
  rw [if_neg (by simp [below, directory])]
  exact ⟨_, rfl⟩

/-- A file that has been opened is where its text leads. -/
theorem entry?_of_openFile {id : FileId} (h : disk.openFile text = some (id, disk')) :
    disk'.entry? text = some (.file id) := by
  rcases openFile_cases h with ⟨there, rfl⟩ | ⟨free, -, -⟩
  · exact there
  · refine (openFile_of_free ?_ h).1
    apply Option.eq_none_iff_forall_ne_some.2
    intro entry found
    rw [ entryAt?_place_of_entry? found] at free
    cases free

/-- What is made for a file is no directory. -/
theorem directory_of_openFile {id : FileId} (h : disk.openFile text = some (id, disk'))
    (directory : disk'.entryAt? p = some .directory) : disk.entryAt? p = some .directory := by
  have linked := linked_openFile h
  by_cases at_ : p = disk.place text
  · have file := entryAt?_place_of_entry? (entry?_of_openFile h)
    rw [place_congr linked.more.workDir, ← at_, directory] at file
    cases file
  · rw [← linked.only p (by simpa using at_)]
    exact directory

end Disk

end TrieStorage
