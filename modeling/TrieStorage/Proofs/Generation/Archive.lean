import TrieStorage.Proofs.Disk.Ways
import TrieStorage.Proofs.Generation.Directories
import TrieStorage.Proofs.Store.Logged

/-!
# Archives

The stores of a manager on disk: three in a data directory, and one in a numbered directory for
each generation.  In an archive each of them that is there has a log of its own, in which there
are whole records and nothing else, and there are no directories for other generations.  Opening
stores, writing to them and removing a generation keep this, as long as no generation is in the
way of the rest: its directory may go at any time, with everything in it.
-/

namespace TrieStorage

/-! ## Names in a directory -/

namespace Path

/-- A name that leads one step down. -/
structure Plain (name : String) : Prop where
  piece : pieces name.toList = [name.toList]
  own : name ≠ "" ∧ name ≠ "." ∧ name ≠ ".."

variable {name : String}

theorem Plain.resolve (plain : Plain name) (place : Path) :
    Path.resolve place [name] = place ++ [name] := by
  obtain ⟨full, dot, back⟩ := plain.own
  rw [Path.resolve, if_neg (by simp [full, dot]), if_neg back]
  rfl

theorem Plain.names_eq (plain : Plain name) : names name = [name] := by
  rw [names, plain.piece, List.map_singleton, String.ofList_toList]

theorem Plain.join_ne (plain : Plain name) (base : String) : join base name ≠ "" := by
  unfold join
  by_cases empty : base.isEmpty = true
  · rw [if_pos empty]
    exact plain.own.1
  · have full : base ≠ "" := by simpa using empty
    rw [if_neg empty]
    split <;> simp [full]

/-- What is in a directory is found without steps back, if the directory is. -/
theorem Plain.straight_join (plain : Plain name) {base : String} (onward : ".." ∉ names base) :
    Straight (join base name) := by
  refine ⟨plain.join_ne base, ?_⟩
  by_cases full : base = ""
  · rw [join, if_pos (by simp [full]), plain.names_eq]
    simpa using plain.own.2.2.symm
  · obtain ⟨front, joined, same⟩ := names_join full plain.piece
    rw [joined, List.mem_append, not_or, List.mem_singleton]
    refine ⟨fun mem => onward ?_, plain.own.2.2.symm⟩
    rcases same with same | same
    · rw [same]
      exact mem
    · rw [same]
      exact List.mem_append_left _ mem

/-- All names in a directory are beside each other. -/
theorem exists_place_join (disk : Disk) (base : String) :
    ∃ above, ∀ name, Plain name → disk.place (join base name) = above ++ [name] := by
  by_cases full : base = ""
  · refine ⟨disk.workDir, fun name plain => ?_⟩
    have start : disk.start? name = some disk.workDir := by
      rw [Disk.start?_eq plain.own.1, plain.names_eq, if_neg (by simpa using plain.own.1)]
    unfold join
    rw [if_pos (by simp [full]), Disk.place, start, plain.names_eq, plain.resolve]
    rfl
  · refine ⟨disk.place base, fun name plain => ?_⟩
    rw [Disk.place_join full plain.piece, plain.resolve]

end Path

/-- A name that a scan comes to after all numbers, and ends at. -/
structure Generation.Late (name : String) : Prop where
  noNumber : Generation.idOfName? name = none
  behind : ∀ n : Nat, toString n < name

theorem Generation.not_late_toString (n : Nat) : ¬ Late (toString n) :=
  fun late => String.lt_irrefl _ (late.behind n)

/-! ## The directories of the stores -/

/-- A store that is kept on disk. -/
inductive Volume where
  | db
  | main
  | checkpoints
  | generation (n : Nat)
  deriving DecidableEq

/-- Whether the store is in the data directory. -/
def Volume.isFixed : Volume → Bool
  | .generation _ => false
  | _ => true

/-- Where the stores are: the data directory, and the directory of the generations. -/
structure Site where
  dataDir : String
  root : String

namespace Site

variable (site : Site) (disk : Disk)

/-- The directory of a store. -/
def dir : Volume → String
  | .db => Path.join site.dataDir "db"
  | .main => Path.join site.dataDir "main"
  | .checkpoints => Path.join site.dataDir "checkpoints"
  | .generation n => Generation.pathOf site.root n

/-- The place of its log. -/
def log (v : Volume) : Path := disk.place (LoggedStore.logPath (site.dir v))

/-- There is a directory for the generation. -/
def Shelves (n : Nat) : Prop :=
  disk.entryAt? (disk.shelf site.root ++ [toString n]) = some .directory

/-- The way to the stores, and to the directory of the generations, leads through none of them.
It may lead through others that are there, if a scan does not end at those too early. -/
structure Apart : Prop where
  full : site.root ≠ ""
  root : ∀ p name, disk.Passes site.root p → disk.shelf site.root ++ [name] <+: p →
    Generation.Late name
  fixed : ∀ v, v.isFixed = true → ∀ p name, disk.Passes (site.dir v) p →
    disk.shelf site.root ++ [name] <+: p → Generation.Late name

/-- Each store that is there has a log of its own with whole records in it, and is followed to
from its directory; besides the generations there are only directories that a scan ends at. -/
structure Archive : Prop where
  apart : site.Apart disk
  unique : disk.Unique
  named : ∀ p file, disk.entryAt? p = some (.file file) → file < disk.files.length
  single : ∀ v w file, disk.entryAt? (site.log disk v) = some (.file file) →
    disk.entryAt? (site.log disk w) = some (.file file) → v = w
  written : ∀ v file, disk.entryAt? (site.log disk v) = some (.file file) →
    ∃ records, (∀ r ∈ records, LogRecord.Fits r) ∧ disk.files[file]? = some (Log.write records)
  late : ∀ name, disk.entryAt? (disk.shelf site.root ++ [name]) = some .directory →
    Generation.Late name ∨ ∃ n : Nat, name = toString n
  filled : ∀ n, site.Shelves disk n → n < Generation.idBound ∧
    ∃ file, disk.entry? (LoggedStore.logPath (site.dir (.generation n))) = some (.file file)
  vacant : ∀ n, ¬ site.Shelves disk n → disk.entryAt? (site.log disk (.generation n)) = none

/-- The store writes to the log in its directory, and has in its table what is in there. -/
def Synced (v : Volume) (store : Store) : Prop :=
  ∃ file records, store = .logged ⟨site.dir v, some file, records.foldl LogRecord.apply .empty⟩ ∧
    (∀ r ∈ records, LogRecord.Fits r) ∧
    LoggedStore.HasLog disk (site.dir v) file (Log.write records)

/-- What is read under a key in the log of a store; an empty value counts as nothing. -/
def read (v : Volume) (key : Bytes) : Option Bytes :=
  match LoggedStore.load disk (site.dir v) with
  | .ok table => (table.get? key).filter fun value => !value.isEmpty
  | .error _ => none

variable {site disk} {disk' : Disk} {v w : Volume} {n k : Nat} {p : Path} {name : String}
  {file : FileId} {store : Store}

/-! ## Places -/

theorem dir_ne (v : Volume) : site.dir v ≠ "" := by
  cases v with
  | generation n => exact Disk.pathOf_ne site.root n
  | _ => exact Path.Plain.join_ne ⟨by decide, by decide⟩ site.dataDir

theorem log_eq (v : Volume) :
    site.log disk v = disk.place (site.dir v) ++ [LoggedStore.logName] :=
  Disk.place_logPath (dir_ne v)

theorem place_generation (n : Nat) :
    disk.place (site.dir (.generation n)) = disk.shelf site.root ++ [toString n] :=
  disk.place_pathOf site.root n

theorem log_congr (same : disk'.workDir = disk.workDir) (v : Volume) :
    site.log disk' v = site.log disk v :=
  Disk.place_congr same _

theorem shelves_congr (same : disk'.workDir = disk.workDir) :
    site.Shelves disk' n ↔
      disk'.entryAt? (disk.shelf site.root ++ [toString n]) = some .directory := by
  unfold Shelves
  rw [Disk.shelf_congr same]

/-- Names for the directories in the data directory. -/
theorem place_fixed_ne (fixed : v.isFixed = true) (fixed' : w.isFixed = true) (ne : v ≠ w) :
    disk.place (site.dir v) ≠ disk.place (site.dir w) := by
  obtain ⟨above, at_⟩ := Path.exists_place_join disk site.dataDir
  have db := at_ "db" ⟨by decide, by decide⟩
  have main := at_ "main" ⟨by decide, by decide⟩
  have checkpoints := at_ "checkpoints" ⟨by decide, by decide⟩
  cases v <;> cases w <;> simp_all [dir, Volume.isFixed]

namespace Apart

theorem congr (h : site.Apart disk) (same : disk'.workDir = disk.workDir) : site.Apart disk' := by
  have shelf := Disk.shelf_congr same site.root
  refine ⟨h.full, fun p name => ?_, fun v fixed p name => ?_⟩
  · rw [Disk.passes_congr same, shelf]
    exact h.root p name
  · rw [Disk.passes_congr same, shelf]
    exact h.fixed v fixed p name

/-- The way to a store leads through no generation, unless it is that generation's. -/
theorem late_or_own (h : site.Apart disk) (passes : disk.Passes (site.dir v) p)
    (under : disk.shelf site.root ++ [name] <+: p) :
    Generation.Late name ∨ ∃ n, v = .generation n ∧ name = toString n ∧
      p = disk.shelf site.root ++ [toString n] := by
  cases v with
  | generation n =>
    rcases Disk.passes_join h.full (Path.pieces_toString n) passes with above | last
    · exact .inl (h.root p name above under)
    · right
      have last : p = disk.shelf site.root ++ [toString n] := last.trans (place_generation n)
      refine ⟨n, rfl, ?_, last⟩
      rw [last] at under
      have same := under.eq_of_length (by simp)
      exact (List.cons.inj (List.append_cancel_left same)).1
  | _ => exact .inl (h.fixed _ rfl p name passes under)

theorem own_of_log (h : site.Apart disk)
    (passes : disk.Passes (LoggedStore.logPath (site.dir v)) p)
    (under : disk.shelf site.root ++ [toString n] <+: p) : v = .generation n := by
  have own {q : Path} (passes : disk.Passes (site.dir v) q)
      (under : disk.shelf site.root ++ [toString n] <+: q) : v = .generation n := by
    rcases h.late_or_own passes under with late | ⟨k, same, name, -⟩
    · exact absurd late (Generation.not_late_toString n)
    · rw [same, Path.toString_inj name]
  rcases Disk.passes_join (dir_ne v) (by decide) passes with way | last
  · exact own way under
  · have last : p = disk.place (site.dir v) ++ [LoggedStore.logName] := last.trans (log_eq v)
    rw [last] at under
    rcases List.prefix_concat_iff.1 under with whole | above
    · have name := (List.append_inj' whole rfl).2
      have digit : 'd' ∈ (toString n).toList := by
        rw [(List.cons.inj name).1]
        decide
      have := Path.isDigit_of_mem_toString digit
      simp at this
    · exact own (disk.passes_place _) above

/-- Different stores have their logs at different places. -/
theorem log_inj (h : site.Apart disk) (same : site.log disk v = site.log disk w) : v = w := by
  have own {v w : Volume} {n : Nat} (generation : v = .generation n)
      (same : site.log disk v = site.log disk w) : w = .generation n := by
    have passes : disk.Passes (LoggedStore.logPath (site.dir w)) (site.log disk v) := by
      rw [same]
      exact disk.passes_place _
    apply h.own_of_log passes
    rw [generation, log_eq, place_generation]
    exact List.prefix_append ..
  cases fixed : v.isFixed with
  | false =>
    cases v with
    | generation n => exact (own rfl same).symm
    | _ => cases fixed
  | true =>
    cases fixed' : w.isFixed with
    | false =>
      cases w with
      | generation n => exact own rfl same.symm
      | _ => cases fixed'
    | true =>
      rw [log_eq, log_eq] at same
      by_contra ne
      exact place_fixed_ne fixed fixed' ne (List.append_cancel_right same)

end Apart

/-! ## Before the first store -/

/-- Nothing of the stores is there yet. -/
structure Unused (site : Site) (disk : Disk) : Prop where
  apart : site.Apart disk
  sound : disk.Sound
  unique : disk.Unique
  named : ∀ p file, disk.entryAt? p = some (.file file) → file < disk.files.length
  bare : ∀ v, v.isFixed = true → disk.entryAt? (site.log disk v) = none
  late : ∀ name, disk.entryAt? (disk.shelf site.root ++ [name]) = some .directory →
    Generation.Late name

/-- Where nothing is there yet, it is in order. -/
theorem Unused.archive (h : site.Unused disk) : site.Archive disk := by
  have unshelved (n : Nat) : ¬ site.Shelves disk n :=
    fun there => Generation.not_late_toString n (h.late _ there)
  have bare (v : Volume) : disk.entryAt? (site.log disk v) = none := by
    cases fixed : v.isFixed with
    | true => exact h.bare v fixed
    | false =>
      cases v with
      | generation n =>
        apply Option.eq_none_iff_forall_ne_some.2
        intro entry there
        rw [log_eq, place_generation] at there
        exact unshelved n (h.sound.parent there)
      | _ => cases fixed
  refine ⟨h.apart, h.unique, h.named, fun v w file there => ?_, fun v file there => ?_,
    fun name there => .inl (h.late name there), fun n there => absurd there (unshelved n),
    fun n _ => bare _⟩
  all_goals
    rw [bare] at there
    cases there

/-- If the data directory is given without steps back, and the generations are kept in a directory
of it, nothing is in the way of anything else. -/
theorem apart_of_onward {dataDir : String} (onward : ".." ∉ Path.names dataDir) {name : String}
    (plain : Path.Plain name) (disk : Disk) :
    (Site.mk dataDir (Path.join dataDir name)).Apart disk := by
  obtain ⟨above, at_⟩ := Path.exists_place_join disk dataDir
  have full := plain.join_ne dataDir
  have shelf : disk.shelf (Path.join dataDir name) = above ++ [name] := by
    rw [Disk.shelf_eq full, at_ name plain]
  -- the ways to the stores end beside the directory of the generations, or there
  have aside {own : String} (store : Path.Plain own) {p : Path} {x : String}
      (passes : disk.Passes (Path.join dataDir own) p)
      (under : disk.shelf (Path.join dataDir name) ++ [x] <+: p) : Generation.Late x := by
    have above := Disk.prefix_of_passes (store.straight_join onward) passes
    have short := (under.trans above).length_le
    rw [shelf, at_ own store] at short
    simp at short
  refine ⟨full, fun p x => aside plain, fun v fixed p x => ?_⟩
  cases v with
  | generation n => cases fixed
  | db => exact aside ⟨by decide, by decide⟩
  | main => exact aside ⟨by decide, by decide⟩
  | checkpoints => exact aside ⟨by decide, by decide⟩

/-! ## Changes of the disk -/

/-- Every log that is followed to from the directory of its store is kept, as it is. -/
def KeepsLog (site : Site) (v : Volume) (disk disk' : Disk) : Prop :=
  ∀ file log, LoggedStore.HasLog disk (site.dir v) file log →
    LoggedStore.HasLog disk' (site.dir v) file log

theorem Synced.keeps (h : site.Synced disk v store) (kept : site.KeepsLog v disk disk') :
    site.Synced disk' v store := by
  obtain ⟨file, records, same, fits, log⟩ := h
  exact ⟨file, records, same, fits, kept _ _ log⟩

/-- The log of a store is followed to from its directory. -/
theorem Synced.founded (h : site.Synced disk v store) :
    ∃ file, disk.entry? (LoggedStore.logPath (site.dir v)) = some (.file file) := by
  obtain ⟨file, records, -, -, log⟩ := h
  exact ⟨file, log.named⟩

/-- A store finds what is in its log. -/
theorem Synced.load (h : site.Synced disk v store) : ∃ table,
    LoggedStore.load disk (site.dir v) = .ok table ∧
      ∀ key, store.get key = .ok (table.get? key) := by
  obtain ⟨file, records, rfl, fits, log⟩ := h
  refine ⟨_, ?_, fun key => rfl⟩
  rw [LoggedStore.load, log.named]
  dsimp only
  rw [Disk.content_of_files log.content, Log.replay_write fits]

/-- What a store finds has been put into it, and could be put again. -/
theorem Synced.fits {key value : Bytes} (h : site.Synced disk v store)
    (found : store.get key = .ok (some value)) : (LogRecord.put key value).Fits := by
  obtain ⟨file, records, rfl, fits, -⟩ := h
  have found : (records.foldl LogRecord.apply Table.empty).get? key = some value :=
    Except.ok.inj found
  rw [LogRecord.get?_foldl_empty, LogRecord.lastValue?] at found
  obtain ⟨r, last, put⟩ := Option.bind_eq_some_iff.1 found
  have mem := List.mem_reverse.1 (List.mem_of_find?_eq_some last)
  have own : r.key = key := by simpa using List.find?_some last
  cases r with
  | put k x =>
    cases own
    cases put
    exact fits _ mem
  | remove k => cases put

/-- Opening another store takes no log away. -/
theorem keepsLog_of_filed (filed : Disk.Filed p disk disk') (v : Volume) :
    site.KeepsLog v disk disk' := by
  intro file log h
  exact ⟨ filed.more.entry? h.named, filed.kept h.content⟩

theorem Apart.only_openAt (h : site.Apart disk) {answer : Except StoreError Store}
    (opened : Opener.openAt .logged disk (site.dir v) = (answer, disk'))
    (under : disk.shelf site.root ++ [toString n] <+: p) (other : v ≠ .generation n) :
    disk'.entryAt? p = disk.entryAt? p := by
  apply Disk.only_openAt (dir_ne v) opened
  · intro passes
    rcases h.late_or_own passes under with late | ⟨k, own, name, -⟩
    · exact Generation.not_late_toString n late
    · rw [Path.toString_inj name] at other
      exact other own
  · intro log
    rw [← log_eq] at log
    apply other
    apply h.own_of_log (disk.passes_place _)
    rw [log] at under
    exact under

namespace Archive

variable (h : site.Archive disk)

include h

/-- A store that is followed to has whole records in its log. -/
theorem hasLog (named : disk.entry? (LoggedStore.logPath (site.dir v)) = some (.file file)) :
    ∃ records, (∀ r ∈ records, LogRecord.Fits r) ∧
      LoggedStore.HasLog disk (site.dir v) file (Log.write records) := by
  obtain ⟨records, fits, content⟩ := h.written v file ( Disk.entryAt?_place_of_entry? named)
  exact ⟨records, fits, named, content⟩

/-! ### Writing -/

theorem append {r : LogRecord} (fits : r.Fits) (file : FileId) :
    site.Archive (disk.append file (Frame.write r.encode)) := by
  have names : disk.SameNames (disk.append file (Frame.write r.encode)) := ⟨rfl, rfl⟩
  refine ⟨h.apart.congr rfl, h.unique, fun p id named => ?_, h.single, fun w id named => ?_,
    h.late, fun n shelved => ?_, h.vacant⟩
  · rw [Disk.append, List.length_modify]
    exact h.named p id named
  · obtain ⟨records, fit, content⟩ := h.written w id named
    by_cases own : file = id
    · subst own
      refine ⟨records ++ [r], LogRecord.fits_concat fit fits, ?_⟩
      rw [Log.write_append, Log.write_singleton]
      exact Disk.files_append content _
    · refine ⟨records, fit, ?_⟩
      rw [Disk.files_append_of_ne (Ne.symm own)]
      exact content
  · obtain ⟨small, id, log⟩ := h.filled n shelved
    exact ⟨small, id, names.more.entry? log⟩

omit h in
/-- Other logs stay as they are. -/
theorem keepsLog_append (h : site.Archive disk)
    (there : disk.entryAt? (site.log disk v) = some (.file file)) (bytes : Bytes) (other : w ≠ v) :
    site.KeepsLog w disk (disk.append file bytes) := by
  intro id log held
  have more := disk.extends_append file bytes
  refine ⟨ more.entry? held.named, ?_⟩
  have ne : file ≠ id := by
    rintro rfl
    exact other (h.single w v file ( Disk.entryAt?_place_of_entry? held.named) there)
  rw [Disk.files_append_of_ne ne.symm]
  exact held.content

/-- Only what is under the key of the record is read anew. -/
theorem read_append {r : LogRecord} (fits : r.Fits) (file : FileId) {key : Bytes}
    (other : r.key ≠ key) (w : Volume) :
    site.read (disk.append file (Frame.write r.encode)) w key = site.read disk w key := by
  have names : disk.SameNames (disk.append file (Frame.write r.encode)) := ⟨rfl, rfl⟩
  have same : Disk.entry? (disk.append file (Frame.write r.encode))
      (LoggedStore.logPath (site.dir w)) = disk.entry? (LoggedStore.logPath (site.dir w)) :=
    Disk.entry?_congr rfl fun p _ => names.entryAt? p
  unfold read LoggedStore.load
  rw [same]
  cases found : disk.entry? (LoggedStore.logPath (site.dir w)) with
  | none => rfl
  | some entry =>
    cases entry with
    | directory => rfl
    | file id =>
      dsimp only
      obtain ⟨records, fit, log⟩ := h.hasLog found
      by_cases own : id = file
      · subst own
        have written := Disk.files_append log.content (Frame.write r.encode)
        rw [← Log.write_singleton, ← Log.write_append, Log.write_singleton] at written
        rw [Disk.content_of_files written, Disk.content_of_files log.content,
          Log.replay_write fit, Log.replay_write (LogRecord.fits_concat fit fits),
          List.foldl_append]
        dsimp only [List.foldl_cons, List.foldl_nil]
        rw [LogRecord.get?_apply, if_neg other]
      · rw [Disk.content, Disk.files_append_of_ne own]
        rfl

/-! ### Opening -/

theorem shelves_openAt (opened : Opener.openAt .logged disk (site.dir v) = (.ok store, disk')) :
    site.Shelves disk' n ↔ site.Shelves disk n ∨ v = .generation n := by
  have more := Disk.extends_openAt opened
  rw [shelves_congr more.workDir]
  by_cases own : v = .generation n
  · subst own
    have made := Disk.directory_of_openAt (dir_ne _) opened
    rw [place_generation] at made
    exact iff_of_true made (.inr rfl)
  · rw [h.apart.only_openAt opened List.prefix_rfl own]
    simp [own, Shelves]

/-- A store that has been opened has in its table what is in its log. -/
theorem synced_openAt (opened : Opener.openAt .logged disk (site.dir v) = (.ok store, disk')) :
    site.Synced disk' v store := by
  obtain ⟨id, table, own⟩ : ∃ id table, store = .logged ⟨site.dir v, some id, table⟩ := by
    cases Opener.opened opened with
    | logged _ _ _ => exact ⟨_, _, rfl⟩
  have followed : disk'.entry? (LoggedStore.logPath (site.dir v)) = some (.file id) := by
    cases Opener.opened opened with
    | logged _ _ file =>
      cases own
      exact Disk.entry?_of_openFile file
  have held : store.log? = some id := by
    rw [own]
    rfl
  obtain ⟨-, _, same, past⟩ := Disk.log_openAt opened held
  cases own.symm.trans same
  -- the log is one that was there, or a new one with nothing in it
  rcases past with ⟨before, replayed⟩ | ⟨new, grown, empty⟩
  · obtain ⟨records, fits, content⟩ := h.written v id before
    rw [Disk.content_of_files content, Log.replay_write fits] at replayed
    cases replayed
    exact ⟨id, records, own, fits, followed, (Disk.filed_openAt opened).kept content⟩
  · refine ⟨id, [], by rw [own, empty]; rfl, by simp, followed, ?_⟩
    rw [grown, new]
    exact List.getElem?_concat_length

theorem openAt (opened : Opener.openAt .logged disk (site.dir v) = (.ok store, disk'))
    (small : ∀ n, v = .generation n → n < Generation.idBound) :
    site.Archive disk' ∧ site.Synced disk' v store := by
  have filed : Disk.Filed (site.log disk v) disk disk' := Disk.filed_openAt opened
  have more := filed.more
  have log (w : Volume) : site.log disk' w = site.log disk w := log_congr more.workDir w
  obtain ⟨id, records, -, fits, followed, written⟩ := h.synced_openAt opened
  have there : disk'.entryAt? (site.log disk' v) = some (.file id) :=
    Disk.entryAt?_place_of_entry? followed
  rw [log] at there
  have shelves (n : Nat) : site.Shelves disk' n ↔ site.Shelves disk n ∨ v = .generation n :=
    h.shelves_openAt opened
  refine ⟨⟨h.apart.congr more.workDir, Disk.unique_openAt h.unique opened, ?_, ?_, ?_, ?_, ?_, ?_⟩,
    h.synced_openAt opened⟩
  · intro p file named
    rcases filed.names p file named with old | ⟨-, new, grown⟩
    · exact Nat.lt_of_lt_of_le (h.named p file old) filed.length_le
    · rw [new, grown]
      simp
  · intro w w' file named named'
    rw [log] at named named'
    rcases filed.names _ file named with old | ⟨at_, new, -⟩
    · rcases filed.names _ file named' with old' | ⟨-, new, -⟩
      · exact h.single w w' file old old'
      · exact absurd (h.named _ file old) (by rw [new]; exact Nat.lt_irrefl _)
    · rcases filed.names _ file named' with old' | ⟨at', -, -⟩
      · exact absurd (h.named _ file old') (by rw [new]; exact Nat.lt_irrefl _)
      · exact h.apart.log_inj (at_.trans at'.symm)
  · intro w file named
    rw [log] at named
    by_cases same : w = v
    · subst same
      cases there.symm.trans named
      exact ⟨records, fits, written⟩
    · rcases filed.names _ file named with old | ⟨at_, -, -⟩
      · obtain ⟨records, fits, content⟩ := h.written w file old
        exact ⟨records, fits, filed.kept content⟩
      · exact absurd (h.apart.log_inj at_) same
  · intro name made
    rw [Disk.shelf_congr more.workDir] at made
    by_cases passes : disk.Passes (site.dir v) (disk.shelf site.root ++ [name])
    · rcases h.apart.late_or_own passes List.prefix_rfl with late | ⟨n, -, own, -⟩
      · exact .inl late
      · exact .inr ⟨n, own⟩
    · by_cases last : disk.shelf site.root ++ [name] = site.log disk v
      · rw [last, there] at made
        cases made
      · rw [Disk.only_openAt (dir_ne v) opened passes (by rwa [← log_eq])] at made
        exact h.late name made
  · intro n shelved
    rcases (shelves n).1 shelved with old | own
    · obtain ⟨bound, file, named⟩ := h.filled n old
      exact ⟨bound, file, more.entry? named⟩
    · subst own
      exact ⟨small n rfl, id, followed⟩
  · intro n free
    rw [shelves, not_or] at free
    rw [log, h.apart.only_openAt opened (n := n) ?_ free.2]
    · exact h.vacant n free.1
    · rw [log_eq, place_generation]
      exact List.prefix_append ..

/-- A store that is followed to is opened, and nothing changes. -/
theorem openAt_of_entry?
    (named : disk.entry? (LoggedStore.logPath (site.dir v)) = some (.file file)) :
    ∃ store, Opener.openAt .logged disk (site.dir v) = (.ok store, disk) ∧
      site.Synced disk v store := by
  obtain ⟨records, fits, log⟩ := h.hasLog named
  refine ⟨_, ?_, file, records, rfl, fits, log⟩
  unfold Opener.openAt
  dsimp only
  rw [LoggedStore.openAt_of_hasLog log, Log.replay_write fits]

/-- A generation that is not there is opened unless the disk fails. -/
theorem openAt_error {e : StoreError} (free : ¬ site.Shelves disk n)
    (failed : Opener.openAt .logged disk (site.dir (.generation n)) = (.error e, disk')) :
    e = .io := by
  cases Opener.opened failed with
  | unmade _ => rfl
  | unopened _ _ _ => rfl
  | unread made load =>
    unfold LoggedStore.load at load
    split at load
    · cases load
    · cases load
      rfl
    · next id found =>
      -- no file has been made, and there was none
      have there := (Disk.noFile_createDirectories made).names _ id
        ( Disk.entryAt?_place_of_entry? found)
      have free := h.vacant n free
      rw [Disk.place_congr (Disk.extends_createDirectories made).workDir] at there
      cases free.symm.trans there

/-! ### Removing -/

/-- A generation can be removed, and with it nothing else that is in use. -/
theorem removeTree (there : site.Shelves disk n) :
    ∃ disk', disk.removeTree (site.dir (.generation n)) = some disk' ∧ site.Archive disk' ∧
      (∀ k, site.Shelves disk' k ↔ site.Shelves disk k ∧ k ≠ n) ∧
      ∀ w, w ≠ .generation n → site.KeepsLog w disk disk' := by
  obtain ⟨-, file, named⟩ := h.filled n there
  have directory := Disk.isDirectory_of_entry?_join (dir_ne (.generation n)) (by decide) named
  obtain ⟨disk', removed⟩ := Disk.exists_removeTree directory (by simp [place_generation])
  obtain ⟨workDir, entries⟩ := Disk.removeTree_eq_some removed
  have files := Disk.files_removeTree removed
  rw [place_generation] at entries
  have log (w : Volume) : site.log disk' w = site.log disk w := log_congr workDir w
  have past {p : Path} {entry : DiskEntry} (left : disk'.entryAt? p = some entry) :
      disk.entryAt? p = some entry := Disk.entryAt?_of_removeTree removed left
  have keeps (w : Volume) (other : w ≠ .generation n) : site.KeepsLog w disk disk' := by
    intro id log held
    refine ⟨?_, by rw [files]; exact held.content⟩
    rw [ Disk.entry?_congr workDir]
    · exact held.named
    · intro p passes
      rw [entries, if_neg]
      intro under
      exact other (h.apart.own_of_log passes under)
  have shelves (k : Nat) : site.Shelves disk' k ↔ site.Shelves disk k ∧ k ≠ n := by
    rw [shelves_congr workDir, entries]
    by_cases own : k = n
    · subst own
      simp
    · rw [if_neg, and_iff_left own]
      · rfl
      · intro under
        have same := under.eq_of_length (by simp)
        apply own
        exact Path.toString_inj (List.cons.inj (List.append_cancel_left same)).1.symm
  refine ⟨disk', removed, ⟨h.apart.congr workDir, Disk.unique_removeTree h.unique removed,
    fun p id named => ?_, fun v w id named named' => ?_, fun v id named => ?_, fun name made => ?_,
    fun k shelved => ?_, fun k free => ?_⟩, shelves, keeps⟩
  · rw [files]
    exact h.named p id (past named)
  · rw [log] at named named'
    exact h.single v w id (past named) (past named')
  · rw [log] at named
    rw [files]
    exact h.written v id (past named)
  · rw [Disk.shelf_congr workDir] at made
    exact h.late name (past made)
  · obtain ⟨old, other⟩ := (shelves k).1 shelved
    obtain ⟨bound, id, named⟩ := h.filled k old
    obtain ⟨records, -, held⟩ := h.hasLog named
    exact ⟨bound, id, (keeps (.generation k) (by simpa using other) id _ held).named⟩
  · rw [log, entries]
    split
    · rfl
    · next aside =>
      apply h.vacant k
      intro old
      refine free ((shelves k).2 ⟨old, ?_⟩)
      rintro rfl
      apply aside
      rw [log_eq, place_generation]
      exact List.prefix_append ..

end Archive

end Site

end TrieStorage
