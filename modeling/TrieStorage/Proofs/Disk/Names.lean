import TrieStorage.Disk.Basic

/-!
# Names on a disk

What a path text leads to depends only on the names of the disk, and a disk with
more names leads at least as far.  Where a file lies in a directory, making that
directory does nothing.
-/

namespace TrieStorage

namespace Path

/-! ## Path texts -/

theorem pieces_ne_nil (text : List Char) : pieces text ≠ [] := by
  cases text with
  | nil => exact List.cons_ne_nil _ _
  | cons c rest =>
    rw [pieces]
    split
    · exact List.cons_ne_nil _ _
    · split <;> exact List.cons_ne_nil _ _

theorem pieces_slash (front rest : List Char) :
    pieces (front ++ '/' :: rest) = pieces front ++ pieces rest := by
  induction front with
  | nil => simp [pieces]
  | cons c front ih =>
    rw [List.cons_append, pieces, pieces, ih]
    split
    · rfl
    · obtain ⟨p, ps, some_⟩ := List.exists_cons_of_ne_nil (pieces_ne_nil front)
      simp only [some_, List.cons_append]

/-- A joined path has the name at its end, and before it the names of the base, up
to an empty one that stands for a slash. -/
theorem names_join {base name : String} (full : base ≠ "")
    (plain : pieces name.toList = [name.toList]) :
    ∃ front, names (join base name) = front ++ [name] ∧
      (names base = front ∨ names base = front ++ [""]) := by
  have notEmpty : base.isEmpty = false := by simpa using full
  unfold join
  rw [if_neg (by simp [notEmpty])]
  split
  · next slash =>
    obtain ⟨front, ends⟩ := List.getLast?_eq_some_iff.1 slash
    refine ⟨(pieces front).map String.ofList, ?_, .inr ?_⟩
    · rw [names, String.toList_append, ends, List.append_assoc, List.singleton_append, pieces_slash,
        plain]
      simp
    · rw [names, ends, pieces_slash]
      simp [pieces]
  · refine ⟨names base, ?_, .inl rfl⟩
    have text : (base ++ "/" ++ name).toList = base.toList ++ '/' :: name.toList := by
      simp [String.toList_append]
    rw [names, text, pieces_slash, plain]
    simp [names]

theorem join_eq_append (base name : String) : ∃ more, join base name = base ++ more := by
  unfold join
  split
  · next none => exact ⟨name, by simp [String.isEmpty_iff.1 none]⟩
  · split
    · exact ⟨name, rfl⟩
    · exact ⟨"/" ++ name, String.append_assoc⟩

theorem join_ne {base : String} (full : base ≠ "") (name : String) : join base name ≠ "" := by
  obtain ⟨more, same⟩ := join_eq_append base name
  simp [same, full]

theorem isUsable_of_join {base name : String} (h : isUsable (join base name) = true) :
    isUsable base = true := by
  obtain ⟨more, same⟩ := join_eq_append base name
  rw [same] at h
  simp only [isUsable, Bool.and_eq_true, decide_eq_true_eq, String.utf8ByteSize_append,
    String.toList_append, Bool.not_eq_true', List.contains_eq_mem, decide_eq_false_iff_not,
    List.mem_append, not_or] at h ⊢
  exact ⟨by omega, h.2.1⟩

end Path

namespace Disk

/-! ## More names -/

/-- Whether a disk has all the names of another, with the same meaning. -/
structure Extends (disk disk' : Disk) : Prop where
  workDir : disk'.workDir = disk.workDir
  entries : ∀ path entry, disk.entryAt? path = some entry → disk'.entryAt? path = some entry

namespace Extends

variable {disk disk' : Disk}

theorem step {place next : Path} {name : String} (h : disk.Extends disk')
    (ok : disk.step place name = .ok next) : disk'.step place name = .ok next := by
  unfold Disk.step at ok ⊢
  cases here : disk.entryAt? place with
  | none => simp [here] at ok
  | some entry =>
    rw [here] at ok
    rw [h.entries place entry here]
    exact ok

theorem follow {place last : Path} {names : List String} (h : disk.Extends disk')
    (ok : disk.follow place names = .ok last) : disk'.follow place names = .ok last := by
  induction names generalizing place with
  | nil => exact ok
  | cons name rest ih =>
    unfold Disk.follow at ok ⊢
    rcases first : disk.step place name with o | next
    · simp [first] at ok
    · rw [h.step first]
      rw [first] at ok
      exact ih ok

theorem way (h : disk.Extends disk') (text : String) : disk'.way text = disk.way text := by
  unfold Disk.way start?
  rw [h.workDir]

theorem locate {text : String} {path : Path} (h : disk.Extends disk')
    (ok : disk.locate text = .ok path) : disk'.locate text = .ok path := by
  unfold Disk.locate at ok ⊢
  rw [h.way]
  rcases way : disk.way text with o | ⟨place, names⟩
  · simp [way] at ok
  · rw [way] at ok
    exact h.follow ok

end Extends

theorem entry?_eq_some {disk : Disk} {text : String} {entry : DiskEntry} :
    disk.entry? text = some entry ↔
      ∃ path, disk.locate text = .ok path ∧ disk.entryAt? path = some entry := by
  unfold entry?
  cases disk.locate text <;> simp

theorem Extends.entry? {disk disk' : Disk} {text : String} {entry : DiskEntry}
    (h : disk.Extends disk') (found : disk.entry? text = some entry) :
    disk'.entry? text = some entry := by
  obtain ⟨path, located, there⟩ := entry?_eq_some.1 found
  exact entry?_eq_some.2 ⟨path, h.locate located, h.entries path entry there⟩

theorem Extends.isDirectory {disk disk' : Disk} {text : String} (h : disk.Extends disk')
    (there : disk.isDirectory text = true) : disk'.isDirectory text = true := by
  have found := h.entry? (of_decide_eq_true there)
  exact decide_eq_true found

/-! ## Files -/

theorem extends_append (disk : Disk) (id : FileId) (bytes : Bytes) :
    disk.Extends (disk.append id bytes) := ⟨rfl, fun _ _ h => h⟩

theorem extends_link (disk : Disk) (path : Path) (entry : DiskEntry) :
    disk.Extends (disk.link path entry) := by
  refine ⟨rfl, fun p e h => ?_⟩
  unfold entryAt? at h ⊢
  split at h
  · next root =>
    rw [if_pos root]
    exact h
  · next below =>
    rw [if_neg below]
    obtain ⟨hit, found, rfl⟩ := Option.map_eq_some_iff.1 h
    simp [link, List.find?_append, found]

/-- A name that was free leads to what it has been linked to. -/
theorem entryAt?_link {disk : Disk} {path : Path} (free : disk.entryAt? path = none)
    (entry : DiskEntry) : (disk.link path entry).entryAt? path = some entry := by
  unfold entryAt? at free ⊢
  split at free
  · cases free
  · next below =>
    rw [if_neg below]
    simp only [Option.map_eq_none_iff] at free
    simp [link, List.find?_append, free]

theorem files_append {disk : Disk} {id : FileId} {content : Bytes}
    (here : disk.files[id]? = some content) (bytes : Bytes) :
    (disk.append id bytes).files[id]? = some (content ++ bytes) := by
  simp [append, here]

theorem content_of_files {disk : Disk} {id : FileId} {content : Bytes}
    (here : disk.files[id]? = some content) : disk.content id = content := by
  simp [Disk.content, here]

/-- Opening a file that is there changes nothing. -/
theorem openFile_of_entry? {disk : Disk} {text : String} {id : FileId}
    (h : disk.entry? text = some (.file id)) : disk.openFile text = some (id, disk) := by
  obtain ⟨path, located, there⟩ := entry?_eq_some.1 h
  simp only [openFile, located, there]

/-- Opening a file that is not there makes it, without any content. -/
theorem openFile_of_free {disk disk' : Disk} {text : String} {id : FileId}
    (free : disk.entry? text = none) (h : disk.openFile text = some (id, disk')) :
    disk'.entry? text = some (.file id) ∧ disk'.files[id]? = some [] := by
  unfold openFile at h
  rcases located : disk.locate text with o | path
  · simp [located] at h
  · have nothing : disk.entryAt? path = none := by simpa [ entry?, located] using free
    simp only [located, nothing] at h
    split at h
    · simp only [Option.some.injEq, Prod.mk.injEq] at h
      obtain ⟨rfl, rfl⟩ := h
      have more : disk.Extends { disk with files := disk.files ++ [[]] } := ⟨rfl, fun _ _ h => h⟩
      have linked := extends_link { disk with files := disk.files ++ [[]] } path
        (.file disk.files.length)
      refine ⟨entry?_eq_some.2 ⟨path, linked.locate (more.locate located), ?_⟩, by simp [link]⟩
      exact entryAt?_link nothing _
    · cases h

/-! ## A file in a directory -/

theorem follow_append {disk : Disk} {place last : Path} {front back : List String} :
    disk.follow place (front ++ back) = .ok last ↔
      ∃ next, disk.follow place front = .ok next ∧ disk.follow next back = .ok last := by
  induction front generalizing place with
  | nil => simp [follow]
  | cons name front ih =>
    rw [List.cons_append, follow, follow]
    cases disk.step place name with
    | error o => simp
    | ok next => exact ih

theorem follow_append_of_ok {disk : Disk} {place next : Path} {front : List String}
    (reached : disk.follow place front = .ok next) (back : List String) :
    disk.follow place (front ++ back) = disk.follow next back := by
  induction front generalizing place with
  | nil =>
    cases reached
    rfl
  | cons name front ih =>
    rw [follow] at reached
    rw [List.cons_append, follow]
    cases stepped : disk.step place name with
    | error o =>
      rw [stepped] at reached
      cases reached
    | ok here =>
      rw [stepped] at reached
      exact ih reached

theorem follow_singleton (disk : Disk) (place : Path) (name : String) :
    disk.follow place [name] = disk.step place name := by
  rw [follow]
  cases disk.step place name <;> rfl

theorem directory_of_step {disk : Disk} {place next : Path} {name : String}
    (h : disk.step place name = .ok next) : disk.entryAt? place = some .directory := by
  unfold step at h
  split at h
  · cases h
  · cases h
  · assumption

theorem step_empty {disk : Disk} {place : Path} (h : disk.entryAt? place = some .directory) :
    disk.step place "" = .ok place := by
  simp [step, h]

/-- A slash behind the names of a directory leads nowhere else. -/
theorem follow_front {disk : Disk} {place last : Path} {names front : List String}
    (same : names = front ∨ names = front ++ [""])
    (directory : disk.entryAt? last = some .directory) :
    disk.follow place front = .ok last ↔ disk.follow place names = .ok last := by
  rcases same with rfl | rfl
  · rfl
  · rw [follow_append]
    constructor
    · exact fun reached => ⟨last, reached, by rw [follow_singleton, step_empty directory]⟩
    · rintro ⟨next, reached, stay⟩
      rw [follow_singleton] at stay
      rw [step_empty (directory_of_step stay)] at stay
      cases stay
      exact reached

/-- Slashes at the end of a path lead nowhere else. -/
theorem follow_dropSlashes {disk : Disk} {place last : Path} {names : List String}
    (h : disk.follow place names = .ok last) (directory : disk.entryAt? last = some .directory) :
    disk.follow place (Path.dropSlashes names) = .ok last := by
  unfold Path.dropSlashes
  generalize same : names.reverse = back
  obtain rfl : names = back.reverse := by rw [← same, List.reverse_reverse]
  clear same
  induction back generalizing last with
  | nil => exact h
  | cons name back ih =>
    by_cases slash : name = ""
    · rw [List.dropWhile_cons_of_pos (by simpa using slash)]
      rw [List.reverse_cons, follow_append, slash] at h
      obtain ⟨next, ok, last_⟩ := h
      rw [follow_singleton] at last_
      have here := directory_of_step last_
      rw [step_empty here] at last_
      cases last_
      exact ih here ok
    · rw [List.dropWhile_cons_of_neg (by simpa using slash)]
      exact h

/-- The way to something in a directory begins as the way to the directory. -/
theorem way_of_join {disk : Disk} {dir name : String} {path : Path} (full : dir ≠ "")
    (located : disk.locate (Path.join dir name) = .ok path) :
    ∃ place, disk.way dir = .ok (place, Path.names dir) ∧
      disk.follow place (Path.names (Path.join dir name)) = .ok path := by
  obtain ⟨more, same⟩ := Path.join_eq_append dir name
  obtain ⟨c, cs, some_⟩ := List.exists_cons_of_ne_nil fun none =>
    full (String.toList_eq_nil_iff.1 none)
  have start : disk.start? (Path.join dir name) = disk.start? dir := by
    simp [start?, same, String.toList_append, some_]
  unfold locate at located
  unfold Disk.way at located ⊢
  by_cases usable : Path.isUsable (Path.join dir name) = true
  · rw [if_pos (Path.isUsable_of_join usable)]
    rw [if_pos usable, start] at located
    cases place : disk.start? dir with
    | none => simp [place] at located
    | some place' =>
      rw [place] at located
      exact ⟨place', rfl, located⟩
  · rw [if_neg usable] at located
    cases located

/-- Making a directory that is there does nothing. -/
theorem createDirectories_of_isDirectory {disk : Disk} {dir : String}
    (there : disk.isDirectory dir = true) : disk.createDirectories dir = (true, disk) := by
  obtain ⟨path, located, directory⟩ := entry?_eq_some.1 (of_decide_eq_true there)
  have occupied : disk.makeDirectory dir = .error .occupied := by
    unfold locate at located
    split at located
    · cases located
    · next place names way =>
      simp only [makeDirectory, way, follow_dropSlashes located directory, directory,
        Option.isSome_some, if_true]
  unfold createDirectories
  split
  · rfl
  · simp only [makeDirectories, occupied, there]

/-- What leads to something in a directory leads to the directory. -/
theorem isDirectory_of_entry?_join {disk : Disk} {base name : String} {entry : DiskEntry}
    (full : base ≠ "")
    (plain : Path.pieces name.toList = [name.toList])
    (h : disk.entry? (Path.join base name) = some entry) : disk.isDirectory base = true := by
  obtain ⟨path, located, -⟩ := entry?_eq_some.1 h
  obtain ⟨front, joined, names⟩ := Path.names_join full plain
  obtain ⟨place, way, located⟩ := way_of_join full located
  rw [joined, follow_append] at located
  obtain ⟨last, reached, next⟩ := located
  rw [follow_singleton] at next
  have directory := directory_of_step next
  have reached := (follow_front names directory).1 reached
  simp only [isDirectory, Disk.entry?, locate, way, reached, directory, decide_true]

/-- Where something lies in a directory, making that directory does nothing. -/
theorem createDirectories_of_entry? {disk : Disk} {dir name : String} {entry : DiskEntry}
    (plain : Path.pieces name.toList = [name.toList])
    (h : disk.entry? (Path.join dir name) = some entry) :
    disk.createDirectories dir = (true, disk) := by
  by_cases full : dir = ""
  · rw [full]
    rfl
  · exact createDirectories_of_isDirectory (isDirectory_of_entry?_join full plain h)

end Disk

end TrieStorage
