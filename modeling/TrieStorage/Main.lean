import TrieStorage.CommandLine.Footprint

/-!
# The program

Copies the part of the file system that a command may touch onto a disk, runs
the command there, and makes the same changes to the file system.
-/

namespace TrieStorage

namespace CommandLine

def absolute (path : Path) : String := "/" ++ Path.text path

/-- Copies one name of the file system onto a disk, if it is there. -/
def copyName (path : Path) (disk : Disk) : IO Disk := do
  let place := (← IO.currentDir) / absolute path
  if (disk.entryAt? path).isSome then return disk
  else if ← place.isDir then return disk.link path .directory
  else if ← place.pathExists then
    let content := (← IO.FS.readBinFile place).data.toList
    let id := disk.files.length
    return { disk with files := disk.files ++ [content] }.link path (.file id)
  else return disk

/-- Copies the names on the way to a place and answers with the place.  The way
goes on beyond names that are not there, since a command may make them. -/
def copyWay (place : Path) : List String → Disk → IO (Path × Disk)
  | [], disk => return (place, disk)
  | name :: rest, disk => do
    if name = "" ∨ name = "." then copyWay place rest disk
    else if name = ".." then copyWay place.dropLast rest disk
    else
      let next := place ++ [name]
      copyWay next rest (← copyName next disk)

/-- Copies everything below a directory. -/
partial def copyBelow (path : Path) (disk : Disk) : IO Disk := do
  let place := (← IO.currentDir) / absolute path
  let mut disk := disk
  for entry in ← place.readDir do
    let next := path ++ [entry.fileName]
    disk ← copyName next disk
    if disk.entryAt? next = some .directory then disk ← copyBelow next disk
  return disk

/-- Copies what a path text leads to. -/
def copyTree (text : String) (disk : Disk) : IO Disk := do
  match disk.start? text with
  | none => return disk
  | some place =>
    let (path, disk) ← copyWay place (Path.names text) disk
    if disk.entryAt? path = some .directory then copyBelow path disk else return disk

def makeChange : FileChange → IO Unit
  | .removeTree path => IO.FS.removeDirAll (absolute path)
  | .makeDirectory path => IO.FS.createDirAll (absolute path)
  | .append path bytes => do
    let handle ← IO.FS.Handle.mk (absolute path) .append
    handle.write ⟨bytes.toArray⟩
  | .write path bytes => IO.FS.writeBinFile (absolute path) ⟨bytes.toArray⟩

/-- A disk with the working directory and nothing else on it. -/
def workingDisk : IO Disk := do
  let here := Path.names (← IO.currentDir).toString |>.filter fun name => name ≠ ""
  return (← copyWay [] here { workDir := here }).2

/-- Copies what an invocation may touch. -/
def copyFootprint (command : Command) : IO Disk := do
  let mut disk ← workingDisk
  for path in (configFile? command).toList do
    disk ← copyTree path disk
  let config :=
    match (loadConfig (configFile? command)).run disk with
    | (.ok config, _) => config
    | (.error _, _) => {}
  for path in trees config command do
    disk ← copyTree path disk
  return disk

def runProgram (args : List String) : IO UInt32 := do
  let start ← IO.monoMsNow
  let before ←
    match read args with
    | .run invocation => copyFootprint invocation.command
    | _ => pure {}
  let (answer, after) := run args before
  for change in changes before after do
    makeChange change
  let stop ← IO.monoMsNow
  IO.print (answer.output (stop - start))
  match answer.failure with
  | some failure => IO.eprint failure.text
  | none => if answer.exitCode = 2 then IO.eprint helpText
  return UInt32.ofNat answer.exitCode

end CommandLine

end TrieStorage

def main (args : List String) : IO UInt32 := TrieStorage.CommandLine.runProgram args
