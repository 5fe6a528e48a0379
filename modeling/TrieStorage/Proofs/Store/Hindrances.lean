import TrieStorage.Proofs.Disk.Files
import TrieStorage.Proofs.Log.Replay

/-!
# What a store cannot be opened for

In a directory that is there, opening the store of a directory under some name fails for reasons
that lie at two places only, that of the directory and that of the log in it.  Stores that have
been opened beside it leave both alone, and a store that has been opened can be opened again.
-/

namespace TrieStorage

/-- What went wrong, if anything did. -/
def failure? {α : Type} : Except StoreError α → Option StoreError
  | .error e => some e
  | .ok _ => none

theorem failure?_eq_none {α : Type} {answer : Except StoreError α} :
    failure? answer = none ↔ ∃ a, answer = .ok a := by
  cases answer <;> simp [failure?]

namespace Disk

variable {disk disk' : Disk} {dir name : String} {p : Path} {opener : Opener}

/-- What is wrong with a log: it is no file, or cannot be replayed. -/
def logFault (disk : Disk) (log : Path) : Option StoreError :=
  match disk.entryAt? log with
  | none => none
  | some .directory => some .io
  | some (.file id) => failure? (Log.replay (disk.content id))

/-- What stands in the way of a store: a file in the place of its directory, or a log with which
something is wrong. -/
def hindrance (disk : Disk) (opener : Opener) (p : Path) : Option StoreError :=
  match disk.entryAt? p, opener with
  | some (.file _), _ => some .io
  | _, .memory => none
  | _, .logged => disk.logFault (p ++ [LoggedStore.logName])

theorem logFault_congr (entry : disk'.entryAt? p = disk.entryAt? p)
    (content : ∀ id, disk'.content id = disk.content id) : disk'.logFault p = disk.logFault p := by
  unfold logFault
  rw [entry]
  cases disk.entryAt? p with
  | none => rfl
  | some entry =>
    cases entry with
    | directory => rfl
    | file id => simp only [content]

theorem hindrance_congr (entry : disk'.entryAt? p = disk.entryAt? p)
    (log : disk'.entryAt? (p ++ [LoggedStore.logName]) =
      disk.entryAt? (p ++ [LoggedStore.logName]))
    (content : ∀ id, disk'.content id = disk.content id) :
    disk'.hindrance opener p = disk.hindrance opener p := by
  unfold hindrance
  rw [entry, logFault_congr log content]

/-! ## In a directory that is there -/

theorem failure?_openAt_of_isDirectory (there : disk.isDirectory dir = true) :
    failure? (LoggedStore.openAt disk dir).1 =
      if Path.isUsable (LoggedStore.logPath dir) = true then
        disk.logFault (disk.place dir ++ [LoggedStore.logName]) else some .io := by
  have directory := entryAt?_place_of_isDirectory there
  have located : disk.locate (LoggedStore.logPath dir) =
      if Path.isUsable (LoggedStore.logPath dir) = true ∧
          LoggedStore.logName.utf8ByteSize ≤ Path.maxNameSize then
        .ok (disk.place dir ++ [LoggedStore.logName]) else .error .unusable :=
    locate_join (by decide) (by decide) there
  have short : LoggedStore.logName.utf8ByteSize ≤ Path.maxNameSize := by decide
  simp only [short, and_true] at located
  unfold LoggedStore.openAt
  rw [createDirectories_of_isDirectory there]
  dsimp only
  by_cases usable : Path.isUsable (LoggedStore.logPath dir) = true
  · rw [if_pos usable] at located ⊢
    unfold logFault LoggedStore.load openFile Disk.entry?
    rw [located]
    dsimp only
    cases taken : disk.entryAt? (disk.place dir ++ [LoggedStore.logName]) with
    | none => simp [failure?, directory]
    | some entry =>
      cases entry with
      | directory => rfl
      | file id =>
        dsimp only
        cases Log.replay (disk.content id) <;> rfl
  · rw [if_neg usable] at located ⊢
    simp [LoggedStore.load, openFile, Disk.entry?, located, failure?]

/-- Once the directory has been made, only the log is left to go wrong. -/
theorem failure?_openAt_of_made (full : dir ≠ "")
    (made : disk.createDirectories dir = (true, disk')) :
    failure? (opener.openAt disk dir).1 =
      match opener with
      | .memory => none
      | .logged =>
        if Path.isUsable (LoggedStore.logPath dir) = true then
          disk'.logFault (disk.place dir ++ [LoggedStore.logName]) else some .io := by
  obtain ⟨linked, ⟨no, -⟩ | ⟨-, there⟩⟩ := createDirectories_cases full made
  · cases no
  · have again : LoggedStore.openAt disk dir = LoggedStore.openAt disk' dir := by
      unfold LoggedStore.openAt
      rw [made, createDirectories_of_isDirectory there]
    cases opener with
    | memory => simp only [Opener.openAt, made, failure?]
    | logged =>
      dsimp only
      rw [← place_congr linked.more.workDir, ← failure?_openAt_of_isDirectory there, Opener.openAt,
        again]
      rcases LoggedStore.openAt disk' dir with ⟨_ | _, _⟩ <;> rfl

theorem failure?_openAt_of_unmade (made : disk.createDirectories dir = (false, disk')) :
    failure? (opener.openAt disk dir).1 = some .io := by
  cases opener <;> simp only [Opener.openAt, LoggedStore.openAt, made, failure?]

variable (plain : Path.pieces name.toList = [name.toList])
  (own : name ≠ "" ∧ name ≠ "." ∧ name ≠ "..") (there : disk.isDirectory dir = true)

include plain own there

/-- Besides texts that cannot be used, only what is at the place of the directory and at that of
the log decides whether a store can be opened. -/
theorem failure?_openAt_join : failure? (opener.openAt disk (Path.join dir name)).1 =
    if Path.isUsable (opening opener (Path.join dir name)) = true ∧
        name.utf8ByteSize ≤ Path.maxNameSize then
      disk.hindrance opener (disk.place dir ++ [name]) else some .io := by
  have made := createDirectories_join plain own there
  have first : Path.isUsable (opening opener (Path.join dir name)) = true →
      Path.isUsable (Path.join dir name) = true := by
    cases opener with
    | memory => exact id
    | logged => exact Path.isUsable_of_join
  have full := Path.join_ne (full_of_isDirectory there) name
  have place := place_join_of_isDirectory plain own there
  by_cases fits : Path.isUsable (Path.join dir name) = true ∧
      name.utf8ByteSize ≤ Path.maxNameSize
  · rw [if_pos fits] at made
    cases taken : disk.entryAt? (disk.place dir ++ [name]) with
    | none =>
      rw [taken] at made
      have log : (disk.link (disk.place dir ++ [name]) .directory).logFault
          (disk.place dir ++ [name] ++ [LoggedStore.logName]) =
            disk.logFault (disk.place dir ++ [name] ++ [LoggedStore.logName]) :=
        logFault_congr (entryAt?_link_of_ne (by simp) _) fun _ => rfl
      rw [failure?_openAt_of_made full made, place, log]
      cases opener <;> simp [opening, hindrance, taken, fits]
    | some entry =>
      rw [taken] at made
      cases entry with
      | directory =>
        rw [failure?_openAt_of_made full made]
        cases opener <;> simp [opening, hindrance, taken, fits, place]
      | file id =>
        rw [failure?_openAt_of_unmade made]
        simp [hindrance, taken]
  · rw [if_neg fits] at made
    rw [failure?_openAt_of_unmade made, if_neg fun both => fits ⟨first both.1, both.2⟩]

/-- Nothing above the directory is made. -/
theorem linked_openAt_join {answer : Except StoreError Store}
    (h : opener.openAt disk (Path.join dir name) = (answer, disk')) :
    Linked [disk.place dir ++ [name] ++ [LoggedStore.logName], disk.place dir ++ [name]]
      disk disk' := by
  have place := place_join_of_isDirectory plain own there
  rw [← place]
  refine linked_openAt_of (Path.join_ne (full_of_isDirectory there) name) (fun made => ?_) h
  rw [createDirectories_join plain own there] at made
  rw [place]
  split at made
  · split at made
    · cases made
      exact linked_link ..
    · cases made
      exact .refl _ disk
  · cases made
    exact .refl _ disk

/-- A store that has been opened can be opened again. -/
theorem hindrance_openAt {store : Store}
    (h : opener.openAt disk (Path.join dir name) = (.ok store, disk')) :
    disk'.hindrance opener (disk.place dir ++ [name]) = none := by
  have full := Path.join_ne (full_of_isDirectory there) name
  have place := place_join_of_isDirectory plain own there
  have directory := directory_of_openAt full h
  rw [place] at directory
  unfold hindrance
  rw [directory]
  cases opener with
  | memory => rfl
  | logged =>
    obtain ⟨id, log⟩ : ∃ id, store.log? = some id := by
      cases Opener.opened h with
      | logged _ _ _ => exact ⟨_, rfl⟩
    obtain ⟨named, table, -, replayed⟩ := log_openAt h log
    rw [place_logPath full, place] at named
    unfold logFault
    rw [named]
    refine failure?_eq_none.2 ⟨table, ?_⟩
    rw [(filed_openAt h).content]
    rcases replayed with ⟨-, replayed⟩ | ⟨rfl, -, rfl⟩
    · exact replayed
    · have none_ : disk.content disk.files.length = [] := by simp [content]
      rw [none_]
      exact Log.replay_nil

/-- Opening a store changes nothing about which stores beside it can be opened, and for what
reasons the others cannot. -/
theorem failure?_openAt_beside {name' : String} (plain' : Path.pieces name'.toList = [name'.toList])
    (own' : name' ≠ "" ∧ name' ≠ "." ∧ name' ≠ "..") {store : Store}
    (h : opener.openAt disk (Path.join dir name) = (.ok store, disk')) :
    failure? (opener.openAt disk' (Path.join dir name')).1 =
      failure? (opener.openAt disk (Path.join dir name')).1 := by
  have linked := linked_openAt_join plain own there h
  have before : failure? (opener.openAt disk (Path.join dir name')).1 = _ :=
    failure?_openAt_join plain' own' there
  rw [failure?_openAt_join plain' own' (linked.more.isDirectory there),
    place_congr linked.more.workDir]
  -- the store itself can be opened again, and beside it neither place has changed
  by_cases same : name' = name
  · subst same
    rw [h] at before ⊢
    rw [hindrance_openAt plain own there h]
    split at before
    · next fits => exact if_pos fits
    · cases before
  · rw [before, hindrance_congr (linked.only _ ?_) (linked.only _ ?_) (filed_openAt h).content]
    all_goals simp [same]

end Disk

end TrieStorage
