import TrieStorage.Proofs.Disk.Names
import TrieStorage.Proofs.Log.Replay
import TrieStorage.Store.Logged

/-!
# Opening and changing a store on disk

Opening a store replays the log in its directory and leaves the disk as it is;
where there is no log yet, it makes an empty one.  A change through an open store
writes one frame at the end of the log.
-/

namespace TrieStorage

namespace LoggedStore

/-- The file of a directory's log, and what is in it. -/
structure HasLog (disk : Disk) (dir : String) (id : FileId) (log : Bytes) : Prop where
  named : disk.entry? (logPath dir) = some (.file id)
  content : disk.files[id]? = some log

/-- A directory can be made, and a log can be opened in it that is not there yet. -/
structure Creatable (disk : Disk) (dir : String) : Prop where
  made : (disk.createDirectories dir).1 = true
  noLog : Disk.entry? (disk.createDirectories dir).2 (logPath dir) = none
  opens : ((disk.createDirectories dir).2.openFile (logPath dir)).isSome = true

instance (disk : Disk) (dir : String) : Decidable (Creatable disk dir) :=
  decidable_of_iff ((disk.createDirectories dir).1 = true ∧
      Disk.entry? (disk.createDirectories dir).2 (logPath dir) = none ∧
      ((disk.createDirectories dir).2.openFile (logPath dir)).isSome = true)
    ⟨fun h => ⟨h.1, h.2.1, h.2.2⟩, fun h => ⟨h.made, h.noLog, h.opens⟩⟩

section

variable {disk : Disk} {dir : String} {id : FileId} {log : Bytes}

/-- Where there is a log, opening comes down to replaying it. -/
theorem openAt_of_hasLog (h : HasLog disk dir id log) :
    openAt disk dir =
      match Log.replay log with
      | .ok table => (.ok ⟨dir, some id, table⟩, disk)
      | .error e => (.error e, disk) := by
  have plain : Path.pieces logName.toList = [logName.toList] := by decide
  have made := Disk.createDirectories_of_entry? plain h.named
  have loaded : load disk dir = Log.replay log := by
    simp only [load, h.named, Disk.content_of_files h.content]
  simp only [openAt, made, loaded, Disk.openFile_of_entry? h.named]
  cases Log.replay log <;> rfl

/-- Where there is no log, opening makes an empty one. -/
theorem openAt_of_creatable (h : Creatable disk dir) :
    ∃ id disk', openAt disk dir = (.ok ⟨dir, some id, Table.empty⟩, disk') ∧
      HasLog disk' dir id [] := by
  obtain ⟨made, noLog, opens⟩ := h
  rcases created : disk.createDirectories dir with ⟨answer, disk₁⟩
  rw [created] at made noLog opens
  obtain ⟨⟨id, disk₂⟩, opened⟩ := Option.isSome_iff_exists.1 opens
  obtain ⟨named, content⟩ := Disk.openFile_of_free noLog opened
  obtain rfl : answer = true := made
  refine ⟨id, disk₂, ?_, named, content⟩
  have loaded : load disk₁ dir = .ok Table.empty := by
    simp only [load, show disk₁.entry? (logPath dir) = none from noLog]
  simp only [openAt, created, loaded, opened]

theorem HasLog.append (h : HasLog disk dir id log) (bytes : Bytes) :
    HasLog (disk.append id bytes) dir id (log ++ bytes) :=
  ⟨ Disk.Extends.entry? (disk.extends_append id bytes) h.named, Disk.files_append h.content bytes⟩

end

/-! ## Changes -/

/-- Makes the change that a record stands for. -/
def change (s : LoggedStore) (disk : Disk) : LogRecord → Except StoreError Unit × LoggedStore × Disk
  | .put key value => s.put disk key value
  | .remove key => s.remove disk key

theorem change_of_open {s : LoggedStore} {id : FileId} (opened : s.log = some id) (disk : Disk)
    (r : LogRecord) :
    s.change disk r =
      (.ok (), { s with table := r.apply s.table }, disk.append id (Frame.write r.encode)) := by
  cases r <;> simp only [change, put, remove, append, opened]

theorem change_of_closed {s : LoggedStore} (closed : s.log = none) (disk : Disk) (r : LogRecord) :
    s.change disk r = (.error .closed, s, disk) := by
  cases r <;> simp only [change, put, remove, append, closed]

/-- Makes changes one after the other, up to the first that fails. -/
def changeAll (s : LoggedStore) (disk : Disk) :
    List LogRecord → Except StoreError Unit × LoggedStore × Disk
  | [] => (.ok (), s, disk)
  | r :: rest =>
    match s.change disk r with
    | (.ok (), s, disk) => s.changeAll disk rest
    | (.error e, s, disk) => (.error e, s, disk)

/-- An open store makes all changes, and its log then ends in their frames. -/
theorem changeAll_of_open {s : LoggedStore} {disk : Disk} {dir : String} {id : FileId} {log : Bytes}
    (opened : s.log = some id) (h : HasLog disk dir id log) (changes : List LogRecord) :
    ∃ disk', s.changeAll disk changes =
        (.ok (), { s with table := changes.foldl LogRecord.apply s.table }, disk') ∧
      HasLog disk' dir id (log ++ Log.write changes) := by
  induction changes generalizing s disk log with
  | nil => exact ⟨disk, rfl, by simpa [Log.write] using h⟩
  | cons r rest ih =>
    obtain ⟨disk', done, last⟩ := ih (s := { s with table := r.apply s.table }) opened
      (h.append (Frame.write r.encode))
    refine ⟨disk', ?_, ?_⟩
    · simp only [changeAll, change_of_open opened, done, List.foldl_cons]
    · rw [List.append_assoc] at last
      exact last

end LoggedStore

end TrieStorage
