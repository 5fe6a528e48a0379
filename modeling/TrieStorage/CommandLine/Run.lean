import TrieStorage.CommandLine.Arguments
import TrieStorage.CommandLine.Report
import TrieStorage.Config.Document
import TrieStorage.Manager.Assembly
import TrieStorage.Manager.Settle
import TrieStorage.Text.Json

/-!
# Commands

Each command as a function on a disk.  Keys and hashes are read first, then the
settings, then the stores are opened one after the other; what has been made on
the disk by then stays there when a later step fails.  A manager is closed
before its result is printed, and a failure to close it comes before a failure
to find a key.
-/

namespace TrieStorage

namespace CommandLine

/-- Why a command did not get to its end. -/
inductive Stop where
  | failure (f : Failure)
  /-- The program breaks off without a report. -/
  | abort
  deriving DecidableEq, Repr

/-- Work on a disk that may stop early; the disk stays as it is then. -/
abbrev Work := ExceptT Stop (StateM Disk)

/-- What a program leaves behind, apart from the disk. -/
structure Answer where
  exitCode : Nat
  /-- Standard output, given the milliseconds that the work took. -/
  output : Nat → String := fun _ => ""
  failure : Option Failure := none

def failWith {α : Type} (attempt : String) (causes : List String) : Work α :=
  throw (.failure { attempt, causes })

/-! ## Managers over stores on disk -/

/-- The settings in a file, or the defaults. -/
def loadConfig (path : Option String) : Work Config := do
  match path with
  | none => return {}
  | some path =>
    match Config.load (← get) path with
    | .ok config => return config
    | .error e => failWith ("loading config from " ++ path) e.chain

/-- The settings that a manager gets: generations are kept in the data
directory unless the settings say where. -/
def effectiveConfig (dataDir : String) (config : Config) : Config :=
  match config.snapshotDb.path with
  | some _ => config
  | none =>
    { config with snapshotDb := { config.snapshotDb with path := some (Path.join dataDir "snapshots") } }

def openStore (dataDir name : String) : Work Store := do
  let dir := Path.join dataDir name
  let (answer, disk) := LoggedStore.openAt (← get) dir
  set disk
  match answer with
  | .ok store => return .logged store
  | .error e => failWith ("opening store in " ++ dir) e.chain

/-- The greatest number of requests a queue can be made for. -/
def queueLimit : Nat := 2305843009213693951

/-- The parts of a manager over stores on disk. -/
def parts (config : Config) (epoch : Option Epoch) (db main checkpoints : Store) : Parts :=
  { db := some db
    main := some main
    checkpoints := some checkpoints
    marshaller := some Scheme.standard.decode
    hasher := some Scheme.standard.address
    tracker := some { budget := config.checkpointHashesMaxSize }
    hub := some (EpochHub.startingAt epoch)
    opener := some .logged
    config }

/-- Opens a manager over the stores in the data directory. -/
def openManager (options : StorageOptions) : Work Manager := do
  let config := effectiveConfig options.dataDir (← loadConfig options.config)
  let db ← openStore options.dataDir "db"
  let main ← openStore options.dataDir "main"
  let checkpoints ← openStore options.dataDir "checkpoints"
  if queueLimit < config.snapshotsBufferLen then throw .abort
  match Manager.assemble (parts config options.epoch db main checkpoints) (← get) [] with
  | .ok m =>
    set m.vault.storage.disk
    return m
  | .error e => failWith "opening trie storage manager" e.chain

/-- Closes a manager and lets it come to rest. -/
def closeManager (m : Manager) : Work Unit := do
  let (answer, m) := m.close
  set m.settle.vault.storage.disk
  match answer with
  | .ok () => return ()
  | .error e => failWith "closing trie storage manager" e.chain

/-! ## Generations -/

def bareStorage (disk : Disk) : Storage :=
  { disk
    main := { name := .main, store := .memory {} }
    db := { name := .db, store := .memory {} }
    checkpoints := { name := .checkpoints, store := .memory {} } }

def generationJson (g : Generation) : Json :=
  .object [("id", .number g.id), ("path", .string g.path)]

/-- Lists the generations in a directory; what ends the scan early is passed
over. -/
def listGenerations (dir : String) (format : OutputFormat) : Work (Nat → String) := do
  let (found, storage) := Discovery.run dir .logged (bareStorage (← get))
  set storage.disk
  let text :=
    match format with
    | .json => (Json.array (found.generations.map generationJson)).render ++ "\n"
    | .text =>
      if found.generations.isEmpty then "No snapshot generations in " ++ dir ++ "\n"
      else String.join (found.generations.map fun g => toString g.id ++ "  " ++ g.path ++ "\n")
  return fun _ => text

/-! ## Reading a key -/

def valueText (format : OutputFormat) (key : String) (value : Bytes) : String :=
  match format with
  | .text => "value: " ++ Hex.encode value ++ "\n"
  | .json =>
    (Json.object [("key", .string key), ("value", .string (Hex.encode value))]).render ++ "\n"

def readKey (key : String) (options : StorageOptions) (format : OutputFormat) :
    Work (Nat → String) := do
  match Hex.decode key with
  | .error e => failWith "key must be hex encoded" [e.message]
  | .ok bytes =>
    let m ← openManager options
    closeManager m
    match m.get bytes with
    | .ok value => return fun _ => valueText format key value
    | .error e => failWith ("reading key " ++ key) e.chain

/-! ## Copying a trie -/

/-- What is said about a copy. -/
structure SnapshotReport where
  root : NodeHash
  leaves : List Leaf
  nodes : Nat
  size : Nat
  generations : List Nat
  deriving DecidableEq, Repr

namespace SnapshotReport

def leafJson (leaf : Leaf) : Json :=
  .object [("key", .string (Hex.encode leaf.key)), ("value", .string (Hex.encode leaf.value))]

def json (r : SnapshotReport) (elapsed : Nat) : Json :=
  .object [
    ("root", .string r.root.toHex),
    ("leaves", .array (r.leaves.map leafJson)),
    ("trie_nodes", .number r.nodes),
    ("size", .number r.size),
    ("generations", .array (r.generations.map .number)),
    ("elapsed_ms", .number elapsed)]

def leafLine (leaf : Leaf) : String :=
  "  " ++ Hex.encode leaf.key ++ " = " ++ Hex.encode leaf.value ++ "\n"

def summary (r : SnapshotReport) (elapsed : Nat) : String :=
  "✓ Snapshot of " ++ r.root.shortHex ++ ": " ++ toString r.nodes ++ " nodes, " ++
    toString r.leaves.length ++ " leaves, " ++ toString r.size ++ " bytes in " ++
    toString elapsed ++ " ms\n"

/-- What a reader of an empty copy should look at. -/
def note : String :=
  "  note: nothing copied; check that the root exists and the store is active (--epoch)\n"

def text (r : SnapshotReport) (format : OutputFormat) (elapsed : Nat) : String :=
  match format with
  | .json => (r.json elapsed).render ++ "\n"
  | .text =>
    String.join (r.leaves.map leafLine) ++ r.summary elapsed ++ if r.nodes = 0 then note else ""

end SnapshotReport

def leafBuffer : Nat := 64

/-- Copies the trie under a root, reading its leaves. -/
def copyTrie (m : Manager) (root : NodeHash) : SnapshotReport × Manager :=
  let id := m.submitted
  let m := (m.submit .snapshot root (some { capacity := leafBuffer, reader := .collecting })).settle
  let request := m.request? id
  let stats := (request.map Request.stats).getD {}
  ({ root
     leaves := (request.map Request.received).getD []
     nodes := stats.nodes.toNat
     size := stats.size.toNat
     generations := m.vault.legacy.generations.map Generation.id }, m)

def takeSnapshot (root : String) (options : StorageOptions) (format : OutputFormat) :
    Work (Nat → String) := do
  match NodeHash.ofHex root with
  | .error e => failWith "root must be a hex encoded hash" [e.message]
  | .ok hash =>
    let (report, m) := copyTrie (← openManager options) hash
    closeManager m
    return report.text format

/-! ## Settings -/

def configJson (c : Config) : Json :=
  .object [
    ("snapshots_buffer_len", .number c.snapshotsBufferLen),
    ("max_concurrent_snapshots", .number c.maxConcurrentSnapshots),
    ("max_snapshots", .number c.maxSnapshots),
    ("keep_snapshots", .boolean c.keepSnapshots),
    ("disable_old_storage_epoch", .number c.disableOldStorageEpoch),
    ("throttle_poll_interval_ms", .number c.throttlePollIntervalMs),
    ("checkpoint_hashes_max_size", .number c.checkpointHashesMaxSize),
    ("snapshot_db", .object [
      ("path", match c.snapshotDb.path with
        | some path => .string path
        | none => .null),
      ("batch_delay_seconds", .number c.snapshotDb.batchDelaySeconds)])]

def showConfig (path : Option String) (format : OutputFormat) : Work (Nat → String) := do
  let config ← loadConfig path
  match format with
  | .json => return fun _ => (configJson config).render ++ "\n"
  | .text =>
    match config.toToml with
    | .ok text => return fun _ => text
    | .error e => throw (.failure { attempt := e.message })

/-! ## The program -/

def perform (i : Invocation) : Work (Nat → String) :=
  match i.command with
  | .generations dir => listGenerations dir i.format
  | .get key options => readKey key options i.format
  | .snapshot root options => takeSnapshot root options i.format
  | .config path => showConfig path i.format

def versionText : String := "tsm 0.1.0\n"

def helpText : String :=
  "Usage: tsm [--verbose] [--format text|json] COMMAND\n\n" ++
    "  generations --dir DIR   list the generations under a directory\n" ++
    "  get KEY                 read a key through every storage layer\n" ++
    "  snapshot ROOT           copy the trie under a root hash and print its leaves\n" ++
    "  config [--path FILE]    print the settings in effect\n\n" ++
    "get and snapshot take --data-dir DIR, --config FILE and --epoch N.\n"

def stopAnswer : Stop → Answer
  | .failure f => { exitCode := 1, failure := some f }
  | .abort => { exitCode := 101 }

def run (args : List String) (disk : Disk) : Answer × Disk :=
  match read args with
  | .version => ({ exitCode := 0, output := fun _ => versionText }, disk)
  | .help => ({ exitCode := 0, output := fun _ => helpText }, disk)
  | .misuse => ({ exitCode := 2 }, disk)
  | .run invocation =>
    match (perform invocation).run disk with
    | (.ok output, disk) => ({ exitCode := 0, output }, disk)
    | (.error stop, disk) => (stopAnswer stop, disk)

end CommandLine

end TrieStorage
