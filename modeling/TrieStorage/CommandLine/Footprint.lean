import TrieStorage.CommandLine.Run

/-!
# Footprints

The files and directory trees that an invocation may read or change.  The
settings come first, because they may name a tree of their own.
-/

namespace TrieStorage

namespace CommandLine

/-- The storage options of a command that has any. -/
def storageOptions? : Command → Option StorageOptions
  | .get _ options => some options
  | .snapshot _ options => some options
  | .generations _ => none
  | .config _ => none

/-- The file that holds the settings of a command. -/
def configFile? : Command → Option String
  | .get _ options => options.config
  | .snapshot _ options => options.config
  | .config path => path
  | .generations _ => none

/-- The trees below which a command may change anything, given the settings. -/
def trees (config : Config) : Command → List String
  | .generations dir => [dir]
  | .get _ options | .snapshot _ options =>
    let dirs := ["db", "main", "checkpoints"].map (Path.join options.dataDir)
    dirs ++ (effectiveConfig options.dataDir config).snapshotDb.path.toList
  | .config _ => []

/-- A change to the file system. -/
inductive FileChange where
  | removeTree (path : Path)
  | makeDirectory (path : Path)
  | append (path : Path) (bytes : Bytes)
  | write (path : Path) (bytes : Bytes)
  deriving DecidableEq, Repr

/-- Whether a directory that was there has gone, while the one above it has not. -/
def isGone (before after : Disk) (path : Path) : Bool :=
  (before.entryAt? path).isSome && (after.entryAt? path).isNone &&
    (after.entryAt? path.dropLast).isSome

/-- What has to change so that a name stands for what it stands for afterwards. -/
def changeOf (before after : Disk) (path : Path) : DiskEntry → Option FileChange
  | .directory =>
    if (before.entryAt? path).isSome then none else some (.makeDirectory path)
  | .file id =>
    let new := after.content id
    match before.entryAt? path with
    | some (.file old) =>
      let was := before.content old
      if was = new then none
      else if was.isPrefixOf new then some (.append path (new.drop was.length))
      else some (.write path new)
    | _ => some (.write path new)

/-- The changes that lead from one disk to another, in the order in which they
have to be made. -/
def changes (before after : Disk) : List FileChange :=
  ((before.entries.filter fun e => isGone before after e.1).map fun e => .removeTree e.1) ++
    after.entries.filterMap fun e => changeOf before after e.1 e.2

end CommandLine

end TrieStorage
