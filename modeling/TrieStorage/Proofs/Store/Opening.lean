import TrieStorage.Proofs.Disk.Places
import TrieStorage.Store.Kinds

/-!
# Opening stores

Opening the store of a directory makes the directory and those above it, and a
log in it if there is none.  It gives no other place a name, and takes no name
away; what is then written to a store is not seen in the names at all.
-/

namespace TrieStorage

/-- What opening the store of a directory can come to. -/
inductive Opener.Opened (disk : Disk) (dir : String) :
    Opener → Except StoreError Store → Disk → Prop where
  /-- The directory cannot be made. -/
  | unmade {opener : Opener} {disk' : Disk} (made : disk.createDirectories dir = (false, disk')) :
      Opened disk dir opener (.error .io) disk'
  | memory {disk' : Disk} (made : disk.createDirectories dir = (true, disk')) :
      Opened disk dir .memory (.ok (.memory {})) disk'
  /-- The log cannot be replayed. -/
  | unread {disk' : Disk} {e : StoreError} (made : disk.createDirectories dir = (true, disk'))
      (load : LoggedStore.load disk' dir = .error e) : Opened disk dir .logged (.error e) disk'
  /-- The log cannot be opened for appending. -/
  | unopened {disk' : Disk} {table : Table} (made : disk.createDirectories dir = (true, disk'))
      (load : LoggedStore.load disk' dir = .ok table)
      (file : disk'.openFile (LoggedStore.logPath dir) = none) :
      Opened disk dir .logged (.error .io) disk'
  | logged {disk₁ disk' : Disk} {table : Table} {id : FileId}
      (made : disk.createDirectories dir = (true, disk₁))
      (load : LoggedStore.load disk₁ dir = .ok table)
      (file : disk₁.openFile (LoggedStore.logPath dir) = some (id, disk')) :
      Opened disk dir .logged (.ok (.logged ⟨dir, some id, table⟩)) disk'

theorem Opener.opened {opener : Opener} {disk disk' : Disk} {dir : String}
    {answer : Except StoreError Store} (h : opener.openAt disk dir = (answer, disk')) :
    Opened disk dir opener answer disk' := by
  cases opener with
  | memory =>
    unfold openAt at h
    dsimp only at h
    split at h
    · next made =>
      cases h
      exact .unmade made
    · next made =>
      cases h
      exact .memory made
  | logged =>
    unfold openAt LoggedStore.openAt at h
    dsimp only at h
    rcases made : disk.createDirectories dir with ⟨_ | _, disk₁⟩
    · rw [made] at h
      cases h
      exact .unmade made
    · rcases load : LoggedStore.load disk₁ dir with e | table
      · simp only [made, load] at h
        cases h
        exact .unread made load
      · rcases file : disk₁.openFile (LoggedStore.logPath dir) with _ | ⟨id, disk₂⟩
        · simp only [made, load, file] at h
          cases h
          exact .unopened made load file
        · simp only [made, load, file] at h
          cases h
          exact .logged made load file

namespace Disk

variable {disk disk' : Disk}

theorem extends_openAt {opener : Opener} {dir : String} {answer : Except StoreError Store}
    (h : opener.openAt disk dir = (answer, disk')) : disk.Extends disk' := by
  cases Opener.opened h with
  | unmade made | memory made | unread made _ | unopened made _ _ =>
    exact extends_createDirectories made
  | logged made _ file => exact (extends_createDirectories made).trans (linked_openFile file).more

theorem directory_of_openAt {opener : Opener} {dir : String} {store : Store} (full : dir ≠ "")
    (h : opener.openAt disk dir = (.ok store, disk')) :
    disk'.entryAt? (disk.place dir) = some .directory := by
  have there {disk₁ : Disk} (made : disk.createDirectories dir = (true, disk₁)) :
      disk₁.entryAt? (disk.place dir) = some .directory := by
    obtain ⟨linked, ⟨no, -⟩ | ⟨-, there⟩⟩ := createDirectories_cases full made
    · cases no
    · rw [← place_congr linked.more.workDir]
      exact entryAt?_place_of_isDirectory there
  cases Opener.opened h with
  | memory made => exact there made
  | logged made _ file => exact (linked_openFile file).more.entries _ _ (there made)

theorem place_logPath {dir : String} (full : dir ≠ "") :
    disk.place (LoggedStore.logPath dir) = disk.place dir ++ [LoggedStore.logName] := by
  rw [LoggedStore.logPath, place_join full (by decide)]
  simp [Path.resolve, LoggedStore.logName]

/-- Besides what is made with the directory, opening a store gives a name at most to the log. -/
theorem linked_openAt_of {opener : Opener} {dir : String} {answer : Except StoreError Store}
    {places : List Path} (full : dir ≠ "")
    (directories : ∀ {answer : Bool} {disk₁ : Disk},
      disk.createDirectories dir = (answer, disk₁) → Linked places disk disk₁)
    (h : opener.openAt disk dir = (answer, disk')) :
    Linked ((disk.place dir ++ [LoggedStore.logName]) :: places) disk disk' := by
  have more {disk₁ : Disk} (first : Linked places disk disk₁) :
      Linked ((disk.place dir ++ [LoggedStore.logName]) :: places) disk disk₁ :=
    first.mono (List.subset_cons_self _ _)
  cases Opener.opened h with
  | unmade made | memory made | unread made _ | unopened made _ _ => exact more (directories made)
  | logged made _ file =>
    have first := more (directories made)
    have log := linked_openFile file
    rw [place_logPath full, place_congr first.more.workDir] at log
    exact first.trans (log.mono (by simp))

/-- Opening a store gives names at most to the directory, to the log in it, and to
what is above. -/
theorem linked_openAt {opener : Opener} {dir : String} {answer : Except StoreError Store}
    (full : dir ≠ "") (h : opener.openAt disk dir = (answer, disk')) :
    Linked (disk.place dir :: (disk.place dir ++ [LoggedStore.logName]) ::
      (Path.parents dir).map disk.place) disk disk' :=
  (linked_openAt_of full (fun made => (createDirectories_cases full made).1) h).mono
    (List.Perm.swap ..).subset

/-- The text that has to be usable for a store to be opened. -/
def opening : Opener → String → String
  | .memory, dir => dir
  | .logged, dir => LoggedStore.logPath dir

theorem isUsable_of_openAt {opener : Opener} {dir : String} {store : Store} (full : dir ≠ "")
    (h : opener.openAt disk dir = (.ok store, disk')) :
    Path.isUsable (opening opener dir) = true := by
  cases Opener.opened h with
  | memory made =>
    obtain ⟨-, ⟨no, -⟩ | ⟨-, there⟩⟩ := createDirectories_cases full made
    · cases no
    · obtain ⟨path, located, -⟩ := entry?_eq_some.1 (of_decide_eq_true there)
      exact isUsable_of_locate located
  | logged _ _ file =>
    unfold openFile at file
    split at file
    · cases file
    · next located => exact isUsable_of_locate located

/-! ## Writing -/

theorem sameNames_append (s : LoggedStore) (disk : Disk) (record : LogRecord) :
    disk.SameNames (s.append disk record).2.2 := by
  unfold LoggedStore.append
  split
  · exact .refl disk
  · exact ⟨rfl, rfl⟩

theorem sameNames_put (s : Store) (disk : Disk) (key value : Bytes) :
    disk.SameNames (s.put disk key value).2.2 := by
  cases s with
  | memory | partitioned => exact .refl disk
  | logged s => exact sameNames_append s disk (.put key value)

theorem sameNames_remove (s : Store) (disk : Disk) (key : Bytes) :
    disk.SameNames (s.remove disk key).2.2 := by
  cases s with
  | memory | partitioned => exact .refl disk
  | logged s => exact sameNames_append s disk (.remove key)

end Disk

end TrieStorage
