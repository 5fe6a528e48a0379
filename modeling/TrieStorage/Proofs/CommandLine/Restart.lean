import TrieStorage.CommandLine.Run
import TrieStorage.Proofs.Manager.FreshGenerations
import TrieStorage.Proofs.Manager.Restart

/-!
# Restarting the program

A session opens a manager over the stores in a data directory, lets it work and closes it.  What
it leaves is an archive, so the next session finds in it what this one had.
-/

namespace TrieStorage

namespace CommandLine

variable {disk disk' : Disk} {options : StorageOptions} {config : Config}
  {db main checkpoints : Store} {m : Manager}

/-! ## Opening a manager -/

/-- Work that succeeds succeeds in each of its steps. -/
theorem run_bind_eq_ok {α β : Type} {work : Work α} {next : α → Work β} {b : β} :
    (work >>= next).run disk = (.ok b, disk') ↔
      ∃ a disk₁, work.run disk = (.ok a, disk₁) ∧ (next a).run disk₁ = (.ok b, disk') := by
  show ExceptT.bindCont next (work.run disk).1 (work.run disk).2 = (Except.ok b, disk') ↔ _
  generalize work.run disk = done
  change Except Stop α × Disk at done
  obtain ⟨_ | a, disk₁⟩ := done
  · constructor
    · intro same
      cases same
    · rintro ⟨_, _, same, -⟩
      cases same
  · constructor
    · intro same
      exact ⟨a, disk₁, rfl, same⟩
    · rintro ⟨_, _, same, rest⟩
      cases same
      exact rest

/-- Work that looks at the disk first. -/
theorem run_get_bind {α : Type} (next : Disk → Work α) :
    (get >>= next).run disk = (next disk).run disk := rfl

/-- Settings are only read. -/
theorem loadConfig_run (path : Option String) (disk : Disk) :
    ((loadConfig path).run disk).2 = disk := by
  cases path with
  | none => rfl
  | some path =>
    unfold loadConfig
    dsimp only
    rw [run_get_bind]
    cases Config.load disk path <;> rfl

theorem openStore_eq_ok {dataDir name : String} {store : Store} :
    (openStore dataDir name).run disk = (.ok store, disk') ↔
      Opener.openAt .logged disk (Path.join dataDir name) = (.ok store, disk') := by
  unfold openStore Opener.openAt
  dsimp only
  obtain ⟨answer, disk₁, found⟩ : ∃ answer disk₁,
      LoggedStore.openAt disk (Path.join dataDir name) = (answer, disk₁) := ⟨_, _, rfl⟩
  rw [run_get_bind, found]
  constructor
  · intro opened
    cases answer with
    | error e => cases opened
    | ok logged =>
      cases opened
      rfl
  · intro opened
    cases answer with
    | error e => cases opened
    | ok logged =>
      cases opened
      rfl

/-- The directories that a manager uses. -/
def site (dataDir : String) (config : Config) : Site :=
  ⟨dataDir, ((effectiveConfig dataDir config).snapshotDb.path).getD ""⟩

/-- The three stores of a data directory are opened, one after the other. -/
def OpensStores (site : Site) (disk : Disk) (db main checkpoints : Store) (disk' : Disk) : Prop :=
  ∃ disk₁ disk₂, Opener.openAt .logged disk (site.dir .db) = (.ok db, disk₁) ∧
    Opener.openAt .logged disk₁ (site.dir .main) = (.ok main, disk₂) ∧
    Opener.openAt .logged disk₂ (site.dir .checkpoints) = (.ok checkpoints, disk')

/-- A manager is opened by putting it together over the three stores. -/
theorem openManager_eq_ok :
    (openManager options).run disk = (.ok m, disk') ↔
      ∃ config db main checkpoints disk₁,
        (loadConfig options.config).run disk = (.ok config, disk) ∧
        OpensStores (site options.dataDir config) disk db main checkpoints disk₁ ∧
        config.snapshotsBufferLen ≤ queueLimit ∧
        Manager.assemble (parts (effectiveConfig options.dataDir config) options.epoch db main
          checkpoints) disk₁ [] = .ok m ∧
        disk' = m.vault.storage.disk := by
  have buffer (config : Config) : (effectiveConfig options.dataDir config).snapshotsBufferLen =
      config.snapshotsBufferLen := by
    unfold effectiveConfig
    split <;> rfl
  unfold openManager
  dsimp only
  rw [run_bind_eq_ok]
  constructor
  · rintro ⟨config, disk₀, loads, opened⟩
    have same : disk₀ = disk := by
      have := loadConfig_run options.config disk
      rw [loads] at this
      exact this
    subst same
    obtain ⟨db, disk₁, first, opened⟩ := run_bind_eq_ok.1 opened
    obtain ⟨main, disk₂, second, opened⟩ := run_bind_eq_ok.1 opened
    obtain ⟨checkpoints, disk₃, third, opened⟩ := run_bind_eq_ok.1 opened
    rw [openStore_eq_ok] at first second third
    rw [buffer] at opened
    split at opened
    · cases opened
    · next small =>
      rw [run_get_bind] at opened
      split at opened
      · next made =>
        cases opened
        exact ⟨config, db, main, checkpoints, disk₃, loads, ⟨disk₁, disk₂, first, second, third⟩,
          Nat.le_of_not_lt small, made, rfl⟩
      · cases opened
  · rintro ⟨config, db, main, checkpoints, disk₃, loads, ⟨disk₁, disk₂, first, second, third⟩,
      small, made, rfl⟩
    refine ⟨config, disk, loads, run_bind_eq_ok.2 ⟨db, disk₁, openStore_eq_ok.2 first, ?_⟩⟩
    refine run_bind_eq_ok.2 ⟨main, disk₂, openStore_eq_ok.2 second, ?_⟩
    refine run_bind_eq_ok.2 ⟨checkpoints, disk₃, openStore_eq_ok.2 third, ?_⟩
    rw [buffer, if_neg (Nat.not_lt.2 small), run_get_bind, made]
    rfl

/-- With valid settings a manager can be put together over any three stores. -/
theorem exists_assemble (valid : config.complaint? = none) (epoch : Option Epoch)
    (db main checkpoints : Store) (disk : Disk) :
    ∃ m, Manager.assemble (parts config epoch db main checkpoints) disk [] = .ok m := by
  have slots : config.maxConcurrentSnapshots ≠ 0 := by
    intro none_
    unfold Config.complaint? at valid
    rw [if_pos none_] at valid
    split at valid <;> cases valid
  unfold Manager.assemble Manager.compose parts Config.validate Throttle.make
  dsimp only
  rw [valid, if_neg slots]
  exact ⟨_, rfl⟩

/-! ## Over an archive -/

section

variable {site : Site}

/-- Opening the stores keeps an archive, and they have in their tables what is in their logs. -/
theorem OpensStores.synced (opens : OpensStores site disk db main checkpoints disk')
    (archive : site.Archive disk) : site.Archive disk' ∧ site.Synced disk' .db db ∧
      site.Synced disk' .main main ∧ site.Synced disk' .checkpoints checkpoints := by
  obtain ⟨disk₁, disk₂, first, second, third⟩ := opens
  obtain ⟨archive₁, syncedDb⟩ := archive.openAt first fun _ no => by cases no
  obtain ⟨archive₂, syncedMain⟩ := archive₁.openAt second fun _ no => by cases no
  obtain ⟨archive₃, syncedCheckpoints⟩ := archive₂.openAt third fun _ no => by cases no
  have keeps₂ (v : Volume) : site.KeepsLog v disk₁ disk₂ :=
    Site.keepsLog_of_filed (Disk.filed_openAt second) v
  have keeps₃ (v : Volume) : site.KeepsLog v disk₂ disk' :=
    Site.keepsLog_of_filed (Disk.filed_openAt third) v
  exact ⟨archive₃, (syncedDb.keeps (keeps₂ _)).keeps (keeps₃ _), syncedMain.keeps (keeps₃ _),
    syncedCheckpoints⟩

/-- Stores that are all there are opened, and nothing changes. -/
theorem exists_opensStores (archive : site.Archive disk) (founded : ∀ v, v.isFixed = true →
      ∃ file, disk.entry? (LoggedStore.logPath (site.dir v)) = some (.file file)) :
    ∃ db main checkpoints, OpensStores site disk db main checkpoints disk := by
  obtain ⟨_, named⟩ := founded .db rfl
  obtain ⟨db, first, -⟩ := archive.openAt_of_entry? named
  obtain ⟨_, named⟩ := founded .main rfl
  obtain ⟨main, second, -⟩ := archive.openAt_of_entry? named
  obtain ⟨_, named⟩ := founded .checkpoints rfl
  obtain ⟨checkpoints, third, -⟩ := archive.openAt_of_entry? named
  exact ⟨db, main, checkpoints, disk, disk, first, second, third⟩

end

/-- The parts of a manager stand on the opened stores, if generations may go. -/
theorem OpensStores.placed {dataDir : String}
    (opens : OpensStores (site dataDir config) disk db main checkpoints disk')
    (archive : (site dataDir config).Archive disk) (drops : config.keepSnapshots = false)
    (epoch : Option Epoch) :
    Manager.Placed (site dataDir config)
      (parts (effectiveConfig dataDir config) epoch db main checkpoints) disk' := by
  obtain ⟨archive, syncedDb, syncedMain, syncedCheckpoints⟩ := opens.synced archive
  have path : (effectiveConfig dataDir config).snapshotDb.path =
      some (site dataDir config).root := by
    unfold site effectiveConfig
    cases own : config.snapshotDb.path with
    | some path => simp [own]
    | none => rfl
  have drops : (effectiveConfig dataDir config).keepSnapshots = false := by
    unfold effectiveConfig
    split <;> exact drops
  exact ⟨archive, ⟨db, rfl, syncedDb⟩, ⟨main, rfl, syncedMain⟩,
    ⟨checkpoints, rfl, syncedCheckpoints⟩, rfl, path, drops⟩

/-! ## Sessions -/

/-- A manager is opened, works, and is closed; what has been begun may come to an end. -/
structure Session (config : Config) (options : StorageOptions) (disk : Disk) where
  /-- The manager once it is open. -/
  first : Manager
  opened : Disk
  events : List Event
  /-- The manager when it is closed. -/
  last : Manager
  later : List Event
  rest : Manager
  loads : (loadConfig options.config).run disk = (.ok config, disk)
  opens : (openManager options).run disk = (.ok first, opened)
  ran : first.run? events = some last
  smooth : Manager.Smooth first events last
  ended : last.close.2.run? later = some rest

namespace Session

/-- The disk after the session. -/
def left (σ : Session config options disk) : Disk := σ.rest.vault.storage.disk

/-- The manager of a session has been put together over the stores of the data directory. -/
theorem exists_placed (σ : Session config options disk) (drops : config.keepSnapshots = false)
    (archive : (site options.dataDir config).Archive disk) :
    ∃ db main checkpoints disk', config.snapshotsBufferLen ≤ queueLimit ∧
      Manager.assemble (parts (effectiveConfig options.dataDir config) options.epoch db main
        checkpoints) disk' [] = .ok σ.first ∧
      Manager.Placed (site options.dataDir config) (parts (effectiveConfig options.dataDir config)
        options.epoch db main checkpoints) disk' := by
  obtain ⟨own, db, main, checkpoints, disk', loads, opens, small, made, -⟩ :=
    openManager_eq_ok.1 σ.opens
  have same : own = config := by
    have both := loads.symm.trans σ.loads
    exact Except.ok.inj (Prod.mk.inj both).1
  subst same
  exact ⟨db, main, checkpoints, disk', small, made, opens.placed archive drops options.epoch⟩

/-- A session leaves an archive in which the three stores are, and nothing that has been done to
it after it was closed is in there. -/
theorem archive_left (σ : Session config options disk) (drops : config.keepSnapshots = false)
    (archive : (site options.dataDir config).Archive disk) :
    σ.left = σ.last.vault.storage.disk ∧ (site options.dataDir config).Archive σ.left ∧
      ∀ v, v.isFixed = true → ∃ file, σ.left.entry?
        (LoggedStore.logPath ((site options.dataDir config).dir v)) = some (.file file) := by
  obtain ⟨db, main, checkpoints, disk', -, made, placed⟩ := σ.exists_placed drops archive
  have same : σ.left = σ.last.vault.storage.disk :=
    Manager.disk_after_close placed made σ.ran σ.smooth σ.ended
  have backed := (Manager.backed_of_run placed made σ.ran σ.smooth).storage
  rw [same]
  exact ⟨rfl, backed.archive, backed.founded⟩

end Session

/-- A disk before the first session, or after one with the same settings. -/
inductive Used (config : Config) (dataDir : String) : Disk → Prop
  | unused {disk : Disk} : (site dataDir config).Unused disk → Used config dataDir disk
  | session {options : StorageOptions} {disk : Disk} (σ : Session config options disk) :
      options.dataDir = dataDir → Used config dataDir disk → Used config dataDir σ.left

theorem Used.archive {dataDir : String} (used : Used config dataDir disk)
    (drops : config.keepSnapshots = false) : (site dataDir config).Archive disk := by
  induction used with
  | unused bare => exact bare.archive
  | session σ same _ ih =>
    subst same
    exact (σ.archive_left drops ih).2.1

/-- Before the first session it is enough that nothing is in the data directory, if that is given
without steps back and the generations are kept in it. -/
theorem unused_of_bare {dataDir : String} (unset : config.snapshotDb.path = none)
    (onward : ".." ∉ Path.names dataDir) (sound : disk.Sound) (unique : disk.Unique)
    (named : ∀ p file, disk.entryAt? p = some (.file file) → file < disk.files.length)
    (bare : ∀ name, Path.Plain name → disk.entryAt? (disk.place (Path.join dataDir name)) = none) :
    (site dataDir config).Unused disk := by
  have plain : Path.Plain "snapshots" := ⟨by decide, by decide⟩
  have root : (site dataDir config).root = Path.join dataDir "snapshots" := by
    unfold site effectiveConfig
    rw [unset]
    rfl
  -- what is in a directory that is not there is not there either
  have below {name : String} (plain : Path.Plain name) (inner : String) :
      disk.entryAt? (disk.place (Path.join dataDir name) ++ [inner]) = none := by
    apply Option.eq_none_iff_forall_ne_some.2
    intro entry there
    cases (bare name plain).symm.trans (sound.parent there)
  refine ⟨?_, sound, unique, named, fun v fixed => ?_, fun name there => ?_⟩
  · have apart := Site.apart_of_onward onward plain disk
    rw [← root] at apart
    exact apart
  · rw [Site.log_eq]
    cases v with
    | db => exact below ⟨by decide, by decide⟩ _
    | main => exact below ⟨by decide, by decide⟩ _
    | checkpoints => exact below ⟨by decide, by decide⟩ _
    | generation n => cases fixed
  · rw [root, Disk.shelf_eq (plain.join_ne dataDir), below plain] at there
    cases there

/-- After a session that has heard of no other epoch than the next one, the next one opens, and
every key but that of the mark is read as before; while the old layout is not disabled, it has the
same generations. -/
theorem reads_after_restart (drops : config.keepSnapshots = false)
    (used : Used config options.dataDir disk) (σ : Session config options disk)
    (heard : ∀ epoch ∈ σ.events.flatMap Event.confirmed, options.epoch = some epoch)
    (loads : (loadConfig options.config).run σ.left = (.ok config, σ.left)) :
    ∃ m disk', (openManager options).run σ.left = (.ok m, disk') ∧
      (∀ key, key ≠ activeKey → m.get key = σ.last.get key) ∧
      (σ.last.vault.legacy.disabled = false → m.vault.legacy.generations.map Generation.id =
        σ.last.vault.legacy.generations.map Generation.id) := by
  have archive := used.archive drops
  obtain ⟨db, main, checkpoints, disk₁, small, made, placed⟩ := σ.exists_placed drops archive
  obtain ⟨same, archive', founded⟩ := σ.archive_left drops archive
  obtain ⟨db', main', checkpoints', opens⟩ := exists_opensStores archive' founded
  have placed' := opens.placed archive' drops options.epoch
  obtain ⟨_, composed, -⟩ := Manager.assemble_cases made
  obtain ⟨_, _, _, _, _, _, _, _, -, -, -, -, -, -, -, valid, -⟩ := Manager.compose_eq_ok composed
  obtain ⟨m, made'⟩ := exists_assemble valid options.epoch db' main' checkpoints' σ.left
  refine ⟨m, _, openManager_eq_ok.2 ⟨config, db', main', checkpoints', σ.left, loads, opens, small,
    made', rfl⟩, ?_⟩
  rw [same] at placed' made'
  refine Manager.reads_again placed made σ.ran σ.smooth ?_ placed' made' rfl rfl
  intro epoch confirmed
  simp [Parts.heard, parts, EpochHub.startingAt, heard epoch confirmed]

/-! ### A snapshot that outlives its leaf -/

open Walk (leafHash sampleLeaf)

theorem run_eq_of_toOption {α : Type} {work : Work α} {a : α}
    (h : (work.run disk).1.toOption = some a) : work.run disk = (.ok a, (work.run disk).2) := by
  generalize work.run disk = done at h ⊢
  change Except Stop α × Disk at done
  obtain ⟨_ | _, disk'⟩ := done
  · cases h
  · cases h
    rfl

/-- A session whose end has been looked at exists. -/
theorem exists_session {first : Manager} {events later : List Event}
    {P : Manager → Disk → Prop} [∀ last left, Decidable (P last left)]
    (loads : (loadConfig options.config).run disk = (.ok config, disk))
    (opens : (openManager options).run disk = (.ok first, disk'))
    (h : ((first.run? events).any fun last => (last.close.2.run? later).any fun rest =>
      decide (Manager.Smooth first events last ∧ P last rest.vault.storage.disk)) = true) :
    ∃ σ : Session config options disk, σ.events = events ∧ P σ.last σ.left := by
  obtain ⟨last, ran, ends⟩ := (Option.any_eq_true _ _).1 h
  obtain ⟨rest, ended, looked⟩ := (Option.any_eq_true _ _).1 ends
  obtain ⟨smooth, holds⟩ := of_decide_eq_true looked
  exact ⟨⟨first, disk', events, last, later, rest, loads, opens, ran, smooth, ended⟩, rfl, holds⟩

/-- A snapshot of a leaf is taken, and the leaf is removed. -/
def removedRun : List Event :=
  [.action (.put leafHash.bytes sampleLeaf.encode), .action (.submit .snapshot leafHash none),
    .move (.grant 0), .move (.enqueue 0), .move (.dequeue .snapshot), .move .launch,
    .move (.begin 0), .move (.visit 0), .move (.visit 0), .move (.release 0), .move (.finish 0),
    .action (.remove leafHash)]

/-- The manager has not got anything to do when it is closed. -/
def idleEnd : List Event := [.move .halt, .move .stop]

def inDirectory : StorageOptions := { dataDir := "d", epoch := some 1 }

/-- The leaf is in the only generation. -/
def HasCopy (m : Manager) : Prop :=
  m.get leafHash.bytes = .ok sampleLeaf.encode ∧ m.vault.legacy.disabled = false ∧
    m.vault.legacy.generations.map Generation.id = [0]

instance (m : Manager) : Decidable (HasCopy m) := inferInstanceAs (Decidable (_ ∧ _))

/-- The leaf is read from its snapshot, before and after a restart. -/
theorem removedRun_reads_again : ∃ (σ : Session {} inDirectory {}) (m : Manager) (disk' : Disk),
    σ.events = removedRun ∧ HasCopy σ.last ∧
    (openManager inDirectory).run σ.left = (.ok m, disk') ∧
    m.get leafHash.bytes = .ok sampleLeaf.encode ∧
    m.vault.legacy.generations.map Generation.id = [0] := by
  have evaluated : ((openManager inDirectory).run {}).1.toOption.any (fun first =>
      (first.run? removedRun).any fun last => (last.close.2.run? idleEnd).any fun rest =>
        decide (Manager.Smooth first removedRun last ∧ HasCopy last)) = true := by decide +kernel
  obtain ⟨first, answered, session⟩ := (Option.any_eq_true _ _).1 evaluated
  have opens := run_eq_of_toOption answered
  have loads : (loadConfig inDirectory.config).run {} = (.ok {}, {}) := rfl
  obtain ⟨σ, events, copy⟩ := exists_session (P := fun last _ => HasCopy last) loads opens session
  have bare (p : Path) (name : String) : ({} : Disk).entryAt? (p ++ [name]) = none := by
    unfold Disk.entryAt?
    rw [if_neg (by simp)]
    rfl
  have used : Used {} inDirectory.dataDir {} := by
    refine .unused (unused_of_bare rfl (by decide) (by decide +kernel) List.nodup_nil ?_ ?_)
    · intro p file there
      unfold Disk.entryAt? at there
      split at there <;> cases there
    · intro name plain
      obtain ⟨above, at_⟩ := Path.exists_place_join {} inDirectory.dataDir
      rw [at_ name plain]
      exact bare above name
  obtain ⟨m, disk', again, reads, same⟩ := reads_after_restart rfl used σ
    (by rw [events]; decide) rfl
  obtain ⟨read, enabled, ids⟩ := copy
  exact ⟨σ, m, disk', events, ⟨read, enabled, ids⟩, again, (reads _ (by decide +kernel)).trans read,
    (same enabled).trans ids⟩

/-! ### A root that is not for generations alone -/

theorem scanOrder_eq {names listed : List String} (sorted : names.Pairwise (· ≤ ·))
    (perm : listed.Perm names) : Discovery.scanOrder listed = names := by
  have same : (Discovery.scanOrder listed).Perm names := (List.mergeSort_perm ..).trans perm
  have ordered := Discovery.pairwise_scanOrder listed
  exact same.eq_of_pairwise (fun _ _ _ _ => le_antisymm) ordered sorted

/-- Puts a manager together whose generations are looked for in this order, if it is theirs. -/
def assembleScanning? (names : List String) (parts : Parts) (disk : Disk) : Option Manager :=
  match Manager.compose parts disk [] with
  | .error _ => none
  | .ok c =>
    match c.joinHub.vault.growth? with
    | none => none
    | some (root, opener) =>
      if c.joinHub.vault.storage.disk.entry? root = some .directory ∧
          (c.joinHub.vault.storage.disk.subdirectories root).Perm names then
        some (c.joinHub.scanning root opener names)
      else none

theorem assemble_of_scanning {names : List String} {parts : Parts}
    (sorted : names.Pairwise (· ≤ ·)) (h : assembleScanning? names parts disk = some m) :
    Manager.assemble parts disk [] = .ok m := by
  unfold assembleScanning? at h
  split at h
  · cases h
  · next c composed =>
    split at h
    · cases h
    · next root opener grows =>
      split at h
      · next found =>
        cases h
        have discovers := Manager.discover_eq_scanning grows found.1
        rw [scanOrder_eq sorted found.2] at discovers
        unfold Manager.assemble
        rw [composed, ← discovers]
        rfl
      · cases h

/-- Opens the three stores, with the disk that is left. -/
def openStores? (site : Site) (disk : Disk) : Option (Store × Store × Store × Disk) :=
  match Opener.openAt .logged disk (site.dir .db) with
  | (.error _, _) => none
  | (.ok db, disk₁) =>
    match Opener.openAt .logged disk₁ (site.dir .main) with
    | (.error _, _) => none
    | (.ok main, disk₂) =>
      match Opener.openAt .logged disk₂ (site.dir .checkpoints) with
      | (.error _, _) => none
      | (.ok checkpoints, disk₃) => some (db, main, checkpoints, disk₃)

theorem opensStores_of_eq {site : Site}
    (h : openStores? site disk = some (db, main, checkpoints, disk')) :
    OpensStores site disk db main checkpoints disk' := by
  unfold openStores? at h
  split at h
  · cases h
  · next first =>
    split at h
    · cases h
    · next second =>
      split at h
      · cases h
      · next third =>
        cases h
        exact ⟨_, _, first, second, third⟩

theorem loadConfig_of_toOption {path : Option String}
    (h : ((loadConfig path).run disk).1.toOption = some config) :
    (loadConfig path).run disk = (.ok config, disk) := by
  rw [run_eq_of_toOption h, loadConfig_run]

/-- Opens a manager whose generations are looked for in this order, if it is theirs. -/
def openScanning? (names : List String) (config : Config) (options : StorageOptions)
    (disk : Disk) : Option Manager :=
  match openStores? (site options.dataDir config) disk with
  | none => none
  | some (db, main, checkpoints, disk₁) =>
    assembleScanning? names
      (parts (effectiveConfig options.dataDir config) options.epoch db main checkpoints) disk₁

theorem openManager_of_scanning {names : List String} (sorted : names.Pairwise (· ≤ ·))
    (loads : (loadConfig options.config).run disk = (.ok config, disk))
    (small : config.snapshotsBufferLen ≤ queueLimit)
    (h : openScanning? names config options disk = some m) :
    (openManager options).run disk = (.ok m, m.vault.storage.disk) := by
  unfold openScanning? at h
  split at h
  · cases h
  · next db main checkpoints disk₁ opened =>
    exact openManager_eq_ok.2 ⟨config, db, main, checkpoints, disk₁, loads,
      opensStores_of_eq opened, small, assemble_of_scanning sorted h, rfl⟩

/-- The generations are kept where the program is run. -/
def besideConfig : Config := { snapshotDb := { path := some "." } }

/-- A file that says so. -/
def besideDisk : Disk :=
  { entries := [(["c.toml"], .file 0)]
    files := [Bytes.ofText "[snapshot_db]\npath = \".\"\n"] }

/-- The data directory has a number for its name. -/
def besideOptions : StorageOptions := { dataDir := "7", config := some "c.toml", epoch := some 1 }

/-- A snapshot of a leaf that is nowhere. -/
def emptySnapshot (id : RequestId) : List Event :=
  [.action (.submit .snapshot leafHash none), .move (.grant id), .move (.enqueue id),
    .move (.dequeue .snapshot), .move .launch, .move (.begin id), .move (.visit id),
    .move (.release id), .move (.finish id)]

/-- A value is put, and then two snapshots are taken. -/
def crowdingRun : List Event :=
  .action (.put [107] [49]) :: emptySnapshot 0 ++ emptySnapshot 1

/-- The value is read, and is not read any more after a restart. -/
def LosesValue (last : Manager) (left : Disk) : Prop :=
  (last.vault.legacy.disabled = false ∧ last.get [107] = .ok [49] ∧
      last.vault.legacy.generations.map Generation.id = [8, 9]) ∧
    ((loadConfig besideOptions.config).run left).1.toOption = some besideConfig ∧
    (openScanning? ["7", "8", "9"] besideConfig besideOptions left).any (fun m =>
      decide (m.get [107] = .error .keyNotFound ∧
        m.vault.legacy.generations.map Generation.id = [7, 8, 9])) = true

instance (last : Manager) (left : Disk) : Decidable (LosesValue last left) :=
  inferInstanceAs (Decidable (_ ∧ _))

/-- The data directory counts as the oldest generation, and goes when there are too many; after a
restart it is there again, without the value. -/
theorem crowdingRun_loses_value : ∃ (σ : Session besideConfig besideOptions besideDisk)
    (m : Manager) (disk' : Disk), besideDisk.entry? besideOptions.dataDir = none ∧
    besideConfig.keepSnapshots = false ∧ σ.events.flatMap Event.confirmed = [] ∧
    σ.last.vault.legacy.disabled = false ∧
    (loadConfig besideOptions.config).run σ.left = (.ok besideConfig, σ.left) ∧
    (openManager besideOptions).run σ.left = (.ok m, disk') ∧
    σ.last.get [107] = .ok [49] ∧ m.get [107] = .error .keyNotFound ∧
    σ.last.vault.legacy.generations.map Generation.id = [8, 9] ∧
    m.vault.legacy.generations.map Generation.id = [7, 8, 9] := by
  have loads : (loadConfig besideOptions.config).run besideDisk = (.ok besideConfig, besideDisk) :=
    loadConfig_of_toOption (by decide +kernel)
  have evaluated : (openScanning? ["7"] besideConfig besideOptions besideDisk).any (fun first =>
      (first.run? crowdingRun).any fun last => (last.close.2.run? idleEnd).any fun rest =>
        decide (Manager.Smooth first crowdingRun last ∧
          LosesValue last rest.vault.storage.disk)) = true := by
    decide +kernel
  obtain ⟨first, opened, session⟩ := (Option.any_eq_true _ _).1 evaluated
  obtain ⟨σ, events, ⟨enabled, before, ids⟩, again, reopened⟩ := exists_session (P := LosesValue)
    loads (openManager_of_scanning (by decide) loads (by decide) opened) session
  obtain ⟨m, reopened, looked⟩ := (Option.any_eq_true _ _).1 reopened
  obtain ⟨lost, more⟩ := of_decide_eq_true looked
  have again := loadConfig_of_toOption again
  exact ⟨σ, m, _, by decide +kernel, rfl, by rw [events]; rfl, enabled, again,
    openManager_of_scanning (by decide) again (by decide) reopened, before, lost, ids, more⟩

end CommandLine

end TrieStorage
