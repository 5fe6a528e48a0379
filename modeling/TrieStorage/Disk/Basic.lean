import TrieStorage.Bytes.Basic
import TrieStorage.Disk.Path

/-!
# A disk

Directories and files under one root.  A name leads to a file by the file's
number, so that whoever opened a file goes on writing to it after the name has
been removed or given to another file.  A path text with a slash in front
starts from the root, all others from the working directory.  Names are followed
one at a time, so the first obstacle on the way is the one that counts.
-/

namespace TrieStorage

/-- The number of a file, which outlives its name. -/
abbrev FileId := Nat

/-- What a name leads to. -/
inductive DiskEntry where
  | directory
  | file (id : FileId)
  deriving DecidableEq, Repr

/-- Why a path does not lead anywhere. -/
inductive Obstacle where
  /-- Some name does not exist. -/
  | missing
  /-- Something other than a directory stands on the way. -/
  | blocked
  /-- The name is already taken. -/
  | occupied
  /-- The text or one of its names is not fit to be looked up. -/
  | unusable
  deriving DecidableEq, Repr

/-- Directories and files under one root. -/
structure Disk where
  /-- Where relative paths start. -/
  workDir : Path := []
  /-- All names below the root. -/
  entries : List (Path × DiskEntry) := []
  /-- Contents by file number. -/
  files : List Bytes := []
  deriving DecidableEq, Repr

namespace Disk

/-- What a resolved path leads to; the root is a directory. -/
def entryAt? (disk : Disk) (path : Path) : Option DiskEntry :=
  if path = [] then some .directory
  else (disk.entries.find? fun e => e.1 = path).map Prod.snd

/-- Where a path text starts, unless it is empty. -/
def start? (disk : Disk) (text : String) : Option Path :=
  match text.toList with
  | [] => none
  | c :: _ => some (if c = '/' then [] else disk.workDir)

/-- Steps from a place to a name, for which the place has to be a directory; an
empty name and a dot stay there, two dots step back. -/
def step (disk : Disk) (place : Path) (name : String) : Except Obstacle Path :=
  match disk.entryAt? place with
  | none => .error .missing
  | some (.file _) => .error .blocked
  | some .directory =>
    if name = "" ∨ name = "." then .ok place
    else if name = ".." then .ok place.dropLast
    else if name.utf8ByteSize ≤ Path.maxNameSize then .ok (place ++ [name])
    else .error .unusable

/-- Follows names from a place. -/
def follow (disk : Disk) (place : Path) : List String → Except Obstacle Path
  | [] => .ok place
  | name :: rest =>
    match disk.step place name with
    | .error o => .error o
    | .ok place => disk.follow place rest

/-- Where the way of a usable path text starts, and the names along it. -/
def way (disk : Disk) (text : String) : Except Obstacle (Path × List String) :=
  if Path.isUsable text then
    match disk.start? text with
    | none => .error .missing
    | some place => .ok (place, Path.names text)
  else .error .unusable

/-- The place a path text leads to; the last name need not exist. -/
def locate (disk : Disk) (text : String) : Except Obstacle Path :=
  match disk.way text with
  | .error o => .error o
  | .ok (place, names) => disk.follow place names

/-- What a path text leads to. -/
def entry? (disk : Disk) (text : String) : Option DiskEntry :=
  match disk.locate text with
  | .ok path => disk.entryAt? path
  | .error _ => none

/-- Whether a path text leads to something. -/
def exists? (disk : Disk) (text : String) : Bool := (disk.entry? text).isSome

/-- Whether a path text leads to a directory. -/
def isDirectory (disk : Disk) (text : String) : Bool := disk.entry? text = some .directory

def content (disk : Disk) (id : FileId) : Bytes := disk.files[id]?.getD []

/-- The content of the file a path text leads to. -/
def contentAt? (disk : Disk) (text : String) : Option Bytes :=
  match disk.entry? text with
  | some (.file id) => some (disk.content id)
  | _ => none

/-- Writes more bytes at the end of a file. -/
def append (disk : Disk) (id : FileId) (bytes : Bytes) : Disk :=
  { disk with files := disk.files.modify id (· ++ bytes) }

def overwrite (disk : Disk) (id : FileId) (bytes : Bytes) : Disk :=
  { disk with files := disk.files.modify id fun _ => bytes }

def link (disk : Disk) (path : Path) (entry : DiskEntry) : Disk :=
  { disk with entries := disk.entries ++ [(path, entry)] }

/-- Makes one directory; everything above it has to exist.  Slashes at the end
of the text mean nothing here. -/
def makeDirectory (disk : Disk) (text : String) : Except Obstacle Disk :=
  match disk.way text with
  | .error o => .error o
  | .ok (place, names) =>
    match disk.follow place (Path.dropSlashes names) with
    | .error o => .error o
    | .ok path =>
      if (disk.entryAt? path).isSome then .error .occupied else .ok (disk.link path .directory)

/-- Makes the first of some directories, each of which is above the one before
it, and as many of the others as that needs; tells whether the first is there. -/
def makeDirectories : List String → Disk → Bool × Disk
  | [], disk => (true, disk)
  | text :: above, disk =>
    match disk.makeDirectory text with
    | .ok disk => (true, disk)
    | .error .missing =>
      match makeDirectories above disk with
      | (false, disk) => (false, disk)
      | (true, disk) =>
        match disk.makeDirectory text with
        | .ok disk => (true, disk)
        | .error _ => (disk.isDirectory text, disk)
    | .error _ => (disk.isDirectory text, disk)

/-- Makes the directory a path text names and those above it; tells whether it
is there.  Directories made before a failure stay. -/
def createDirectories (disk : Disk) (text : String) : Bool × Disk :=
  if text.isEmpty then (true, disk) else makeDirectories (text :: Path.parents text) disk

/-- Opens the file at a path text for writing, making it if the name is free. -/
def openFile (disk : Disk) (text : String) : Option (FileId × Disk) :=
  match disk.locate text with
  | .error _ => none
  | .ok path =>
    match disk.entryAt? path with
    | some (.file id) => some (id, disk)
    | some .directory => none
    | none =>
      if disk.entryAt? path.dropLast = some .directory then
        let id := disk.files.length
        some (id, { disk with files := disk.files ++ [[]] }.link path (.file id))
      else none

/-- Gives the file at a path text a content, making it if the name is free. -/
def putFile (disk : Disk) (text : String) (bytes : Bytes) : Option Disk :=
  match disk.openFile text with
  | some (id, disk) => some (disk.overwrite id bytes)
  | none => none

/-- Removes a name and everything below it.  Open files live on. -/
def removeTree (disk : Disk) (text : String) : Option Disk :=
  match disk.locate text with
  | .error _ => none
  | .ok path =>
    if path = [] ∨ (disk.entryAt? path).isNone then none
    else some { disk with entries := disk.entries.filter fun e => !path.isPrefixOf e.1 }

/-- The names of the directories directly in a directory, in no special order. -/
def subdirectories (disk : Disk) (text : String) : List String :=
  match disk.locate text with
  | .error _ => []
  | .ok path =>
    disk.entries.filterMap fun e =>
      if e.1.dropLast = path ∧ e.2 = .directory then e.1.getLast? else none

/-- How an entry is listed below a directory: directories end in a slash. -/
def listingLine (path : Path) (e : Path × DiskEntry) : Option String :=
  if path.isPrefixOf e.1 ∧ path ≠ e.1 then
    let line := Path.text (e.1.drop path.length)
    some (if e.2 = .directory then line ++ "/" else line)
  else none

/-- Everything below a directory, in the order of the bytes of the lines. -/
def listing (disk : Disk) (text : String) : List String :=
  match disk.locate text with
  | .error _ => []
  | .ok path => (disk.entries.filterMap (listingLine path)).mergeSort fun a b => a ≤ b

end Disk

end TrieStorage
