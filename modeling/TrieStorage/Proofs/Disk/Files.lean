import TrieStorage.Proofs.Store.Opening

/-!
# Files behind names

Files are numbered in the order in which they are made.  Opening the store of a directory makes
at most one, the log in that directory, under a name that was free and with the next number;
making directories makes none.  What is in the files that were there stays as it is.
-/

namespace TrieStorage

/-- The file that a store writes to, while it is open. -/
def Store.log? : Store → Option FileId
  | .logged s => s.log
  | _ => none

namespace Disk

variable {disk disk' disk'' : Disk}

/-! ## Directories -/

section

variable {P : Disk → Prop} (makes : ∀ {disk disk' : Disk} {text : String}, P disk →
  disk.makeDirectory text = .ok disk' → P disk')

include makes

/-- What making one directory keeps, making several keeps, whether or not it fails. -/
theorem makeDirectories_induction {texts : List String} {answer : Bool} (start : P disk)
    (h : makeDirectories texts disk = (answer, disk')) : P disk' := by
  induction texts generalizing answer disk disk' with
  | nil =>
    cases h
    exact start
  | cons text above ih =>
    unfold makeDirectories at h
    split at h
    · next made =>
      cases h
      exact makes start made
    · rcases up : makeDirectories above disk with ⟨answer₁, disk₁⟩
      have first : P disk₁ := ih start up
      rw [up] at h
      cases answer₁ with
      | false =>
        cases h
        exact first
      | true =>
        dsimp only at h
        split at h
        · next made =>
          cases h
          exact makes first made
        · cases h
          exact first
    · cases h
      exact start

theorem createDirectories_induction {text : String} {answer : Bool} (start : P disk)
    (h : disk.createDirectories text = (answer, disk')) : P disk' := by
  unfold createDirectories at h
  split at h
  · cases h
    exact start
  · exact makeDirectories_induction makes start h

end

/-- No file has been made, and none has been given a name. -/
structure NoFile (disk disk' : Disk) : Prop where
  files : disk'.files = disk.files
  names : ∀ p id, disk'.entryAt? p = some (.file id) → disk.entryAt? p = some (.file id)

theorem entryAt?_link_cases {path p : Path} {entry entry' : DiskEntry}
    (there : (disk.link path entry).entryAt? p = some entry') :
    disk.entryAt? p = some entry' ∨ p = path ∧ entry' = entry := by
  by_cases own : p = path
  · subst own
    cases before : disk.entryAt? p with
    | none =>
      rw [entryAt?_link before] at there
      exact .inr ⟨rfl, (Option.some.inj there).symm⟩
    | some old =>
      rw [(extends_link disk p entry).entries p old before] at there
      exact .inl there
  · rw [entryAt?_link_of_ne own] at there
    exact .inl there

theorem noFile_createDirectories {text : String} {answer : Bool}
    (h : disk.createDirectories text = (answer, disk')) : NoFile disk disk' := by
  refine createDirectories_induction (P := NoFile disk) (fun before made => ?_)
    ⟨rfl, fun _ _ => id⟩ h
  rw [(makeDirectory_eq_ok made).2]
  refine ⟨before.files, fun p id there => before.names p id ?_⟩
  rcases entryAt?_link_cases there with old | ⟨-, new⟩
  · exact old
  · cases new

/-! ## Opening -/

/-- At most one file has been made, an empty one, and no other has been given a name. -/
structure Filed (log : Path) (disk disk' : Disk) : Prop where
  more : disk.Extends disk'
  files : disk'.files = disk.files ∨ disk'.files = disk.files ++ [[]]
  names : ∀ p id, disk'.entryAt? p = some (.file id) → disk.entryAt? p = some (.file id) ∨
    p = log ∧ id = disk.files.length ∧ disk'.files = disk.files ++ [[]]

namespace Filed

variable {log : Path}

theorem refl (log : Path) (disk : Disk) : Filed log disk disk :=
  ⟨.refl disk, .inl rfl, fun _ _ => .inl⟩

theorem of_noFile (more : disk.Extends disk') (h : NoFile disk disk') : Filed log disk disk' :=
  ⟨more, .inl h.files, fun p id there => .inl (h.names p id there)⟩

theorem length_le (h : Filed log disk disk') : disk.files.length ≤ disk'.files.length := by
  rcases h.files with same | grown
  · exact Nat.le_of_eq (congrArg List.length same.symm)
  · rw [grown]
    simp

theorem kept (h : Filed log disk disk') {id : FileId} {content : Bytes}
    (there : disk.files[id]? = some content) : disk'.files[id]? = some content := by
  rcases h.files with same | grown
  · rw [same]
    exact there
  · obtain ⟨old, -⟩ := List.getElem?_eq_some_iff.1 there
    rw [grown, List.getElem?_append_left old]
    exact there

/-- A file that is made has nothing in it, like one that is not there. -/
theorem content (h : Filed log disk disk') (id : FileId) : disk'.content id = disk.content id := by
  rcases h.files with same | grown
  · unfold Disk.content
    rw [same]
  · unfold Disk.content
    rw [grown]
    rcases Nat.lt_trichotomy id disk.files.length with old | rfl | later
    · rw [List.getElem?_append_left old]
    · simp
    · rw [List.getElem?_eq_none (by simp; omega), List.getElem?_eq_none (by omega)]

end Filed

theorem filed_openFile {text : String} {id : FileId}
    (h : disk.openFile text = some (id, disk')) : Filed (disk.place text) disk disk' := by
  refine ⟨(linked_openFile h).more, ?_, fun p id' there => ?_⟩
  · rcases openFile_cases h with ⟨-, rfl⟩ | ⟨-, -, rfl⟩
    · exact .inl rfl
    · exact .inr rfl
  · rcases openFile_cases h with ⟨-, rfl⟩ | ⟨-, rfl, rfl⟩
    · exact .inl there
    · rcases entryAt?_link_cases there with old | ⟨own, new⟩
      · exact .inl old
      · cases new
        exact .inr ⟨own, rfl, rfl⟩

theorem filed_openAt {opener : Opener} {dir : String} {answer : Except StoreError Store}
    (h : opener.openAt disk dir = (answer, disk')) :
    Filed (disk.place (LoggedStore.logPath dir)) disk disk' := by
  cases Opener.opened h with
  | unmade made | memory made | unread made _ | unopened made _ _ =>
    exact .of_noFile (extends_createDirectories made) (noFile_createDirectories made)
  | @logged disk₁ _ _ _ made _ file =>
    have directories := noFile_createDirectories made
    have more := extends_createDirectories made
    have log := filed_openFile file
    rw [place_congr more.workDir] at log
    refine ⟨more.trans log.more, ?_, fun p id there => ?_⟩
    · rw [← directories.files]
      exact log.files
    · rcases log.names p id there with old | new
      · exact .inl (directories.names p id old)
      · rw [← directories.files]
        exact .inr new

/-- A store that has been opened on disk has a log under the name of its directory: one that was
there, which has been replayed, or one that has been made. -/
theorem log_openAt {opener : Opener} {dir : String} {store : Store} {id : FileId}
    (h : opener.openAt disk dir = (.ok store, disk')) (log : store.log? = some id) :
    disk'.entryAt? (disk.place (LoggedStore.logPath dir)) = some (.file id) ∧ ∃ table,
      store = .logged ⟨dir, some id, table⟩ ∧
      (disk.entryAt? (disk.place (LoggedStore.logPath dir)) = some (.file id) ∧
          Log.replay (disk.content id) = .ok table ∨
        id = disk.files.length ∧ disk'.files = disk.files ++ [[]] ∧ table = Table.empty) := by
  cases Opener.opened h with
  | memory _ => cases log
  | @logged disk₁ _ table _ made load file =>
    cases log
    have directories := noFile_createDirectories made
    have more := extends_createDirectories made
    have same := place_congr more.workDir (LoggedStore.logPath dir)
    unfold LoggedStore.load at load
    rcases openFile_cases file with ⟨there, rfl⟩ | ⟨free, rfl, rfl⟩
    · have named := entryAt?_place_of_entry? there
      rw [same] at named
      rw [there] at load
      refine ⟨named, table, rfl, .inl ⟨directories.names _ _ named, ?_⟩⟩
      unfold content at load ⊢
      rw [← directories.files]
      exact load
    · have none_ : disk₁.entry? (LoggedStore.logPath dir) = none := by
        refine Option.eq_none_iff_forall_ne_some.2 fun entry found => ?_
        rw [ entryAt?_place_of_entry? found] at free
        cases free
      rw [none_] at load
      have empty : table = Table.empty := (Except.ok.inj load).symm
      have files : disk.files = disk₁.files := directories.files.symm
      refine ⟨?_, table, rfl, .inr ⟨by rw [files], by rw [files]; rfl, empty⟩⟩
      rw [← same]
      exact entryAt?_link (by exact free) _

/-! ## Writing and removing -/

/-- What is written to a file is not seen in another. -/
theorem files_append_of_ne {file id : FileId} (ne : id ≠ file) (bytes : Bytes) :
    (disk.append file bytes).files[id]? = disk.files[id]? := by
  simp [append, ne.symm]

theorem files_removeTree {text : String} (h : disk.removeTree text = some disk') :
    disk'.files = disk.files := by
  unfold removeTree at h
  split at h
  · cases h
  · split at h
    · cases h
    · cases h
      rfl

/-- What has a name after a tree has been removed had it before. -/
theorem entryAt?_of_removeTree {text : String} (h : disk.removeTree text = some disk') {p : Path}
    {entry : DiskEntry} (there : disk'.entryAt? p = some entry) :
    disk.entryAt? p = some entry := by
  rw [(removeTree_eq_some h).2] at there
  split at there
  · cases there
  · exact there

end Disk

end TrieStorage
