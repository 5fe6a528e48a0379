import TrieStorage.Disk.Basic
import TrieStorage.Log.Replay
import TrieStorage.Text.Quoted

/-!
# The store on disk

A directory with one log in it.  Opening makes the directory, replays the log
into a table and opens the log for appending.  Each change is appended before
it enters the table.  Several stores may be open on one directory: they share
the log and keep a table each.  Closing forgets the table and lets go of the
log.
-/

namespace TrieStorage

/-- A store whose changes are kept in a log. -/
structure LoggedStore where
  /-- The directory, as it was given. -/
  dir : String
  /-- The log being appended to, until the store is closed. -/
  log : Option FileId
  table : Table
  deriving DecidableEq, Repr

namespace LoggedStore

def logName : String := "data.log"

def logPath (dir : String) : String := Path.join dir logName

/-- The table in the log of a directory; no log stands for no entries. -/
def load (disk : Disk) (dir : String) : Except StoreError Table :=
  match disk.entry? (logPath dir) with
  | none => .ok Table.empty
  | some .directory => .error .io
  | some (.file id) => Log.replay (disk.content id)

/-- Opens the store of a directory, making both if they do not exist. -/
def openAt (disk : Disk) (dir : String) : Except StoreError LoggedStore × Disk :=
  match disk.createDirectories dir with
  | (false, disk) => (.error .io, disk)
  | (true, disk) =>
    match load disk dir with
    | .error e => (.error e, disk)
    | .ok table =>
      match disk.openFile (logPath dir) with
      | none => (.error .io, disk)
      | some (id, disk) => (.ok ⟨dir, some id, table⟩, disk)

/-- Appends a change and enters it into the table. -/
def append (s : LoggedStore) (disk : Disk) (record : LogRecord) :
    Except StoreError Unit × LoggedStore × Disk :=
  match s.log with
  | none => (.error .closed, s, disk)
  | some id =>
    (.ok (), { s with table := record.apply s.table },
      disk.append id (Frame.write record.encode))

def get (s : LoggedStore) (key : Bytes) : Except StoreError (Option Bytes) :=
  match s.log with
  | none => .error .closed
  | some _ => .ok (s.table.get? key)

def put (s : LoggedStore) (disk : Disk) (key value : Bytes) :
    Except StoreError Unit × LoggedStore × Disk :=
  s.append disk (.put key value)

def remove (s : LoggedStore) (disk : Disk) (key : Bytes) :
    Except StoreError Unit × LoggedStore × Disk :=
  s.append disk (.remove key)

/-- Closes the store; the second attempt fails. -/
def close (s : LoggedStore) : Except StoreError Unit × LoggedStore :=
  match s.log with
  | none => (.error .closed, s)
  | some _ => (.ok (), { s with log := none, table := Table.empty })

def describe (s : LoggedStore) : String :=
  "FileStore \x7b dir: " ++ Text.quoted s.dir ++
    ", entry_count: " ++ toString s.table.size ++ " \x7d"

end LoggedStore

end TrieStorage
