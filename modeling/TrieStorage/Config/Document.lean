import TrieStorage.Disk.Basic
import TrieStorage.Manager.Error
import TrieStorage.Toml.Document
import TrieStorage.Toml.Text

/-!
# Settings as a TOML document

Every key may be left out, and keys that mean nothing here are passed over.
The number of concurrent walks has a second, older name; only one of the two
may be given.  The table of the generation backend may also be given as a list
of its values in order.
-/

namespace TrieStorage

namespace Config

open Toml (Value Fields)

/-- An integer between zero and a bound. -/
def natural? (bound : Nat) : Value → Option Nat
  | .integer n => if 0 ≤ n ∧ n ≤ bound then some n.toNat else none
  | _ => none

def truth? : Value → Option Bool
  | .boolean b => some b
  | _ => none

def text? : Value → Option String
  | .string text => some text
  | _ => none

def maxWord : Nat := 18446744073709551615

/-- The greatest 32-bit number, which is also the greatest epoch. -/
def maxEpoch : Nat := 4294967295

/-- The number of concurrent walks under its present name. -/
def concurrencyKey : String := "max_concurrent_snapshots"

/-- The older name of the same setting. -/
def oldConcurrencyKey : String := "snapshots_goroutine_num"

end Config

namespace SnapshotDb

open Toml (Value Fields)

def setField (db : SnapshotDb) (key : String) (value : Value) : Option SnapshotDb :=
  match key with
  | "path" => (Config.text? value).map fun path => { db with path := some path }
  | "batch_delay_seconds" =>
    (Config.natural? Config.maxWord value).map fun n => { db with batchDelaySeconds := n }
  | _ => some db

/-- The backend from a list of its values: path, then delay. -/
def ofItems : List Value → Option SnapshotDb
  | [] => some {}
  | [path] => setField {} "path" path
  | path :: delay :: _ => do
    let db ← setField {} "path" path
    db.setField "batch_delay_seconds" delay

/-- The backend from a value.  A date counts as a table without known keys. -/
def ofValue : Value → Option SnapshotDb
  | .table _ fields => fields.foldlM (fun db f => db.setField f.1 f.2) {}
  | .array items => ofItems items
  | .tables elements => ofItems elements
  | .dateTime _ => some {}
  | _ => none

end SnapshotDb

namespace Config

open Toml (Value Fields)

def setField (c : Config) (key : String) (value : Value) : Option Config :=
  match key with
  | "snapshots_buffer_len" =>
    (natural? maxWord value).map fun n => { c with snapshotsBufferLen := n }
  | "max_concurrent_snapshots" =>
    (natural? maxWord value).map fun n => { c with maxConcurrentSnapshots := n }
  | "snapshots_goroutine_num" =>
    (natural? maxWord value).map fun n => { c with maxConcurrentSnapshots := n }
  | "max_snapshots" => (natural? maxWord value).map fun n => { c with maxSnapshots := n }
  | "keep_snapshots" => (truth? value).map fun b => { c with keepSnapshots := b }
  | "disable_old_storage_epoch" =>
    (natural? maxEpoch value).map fun n => { c with disableOldStorageEpoch := n }
  | "throttle_poll_interval_ms" =>
    (natural? maxWord value).map fun n => { c with throttlePollIntervalMs := n }
  | "checkpoint_hashes_max_size" =>
    (natural? maxWord value).map fun n => { c with checkpointHashesMaxSize := n }
  | "snapshot_db" => (SnapshotDb.ofValue value).map fun db => { c with snapshotDb := db }
  | _ => some c

def ofFields? (fields : Fields) : Option Config :=
  if (fields.get? concurrencyKey).isSome ∧ (fields.get? oldConcurrencyKey).isSome then none
  else fields.foldlM (fun c f => c.setField f.1 f.2) {}

def ofToml (text : String) : Except ManagerError Config :=
  match (Toml.parse text).bind ofFields? with
  | none => .error (.configParse "")
  | some c =>
    match c.validate with
    | .ok () => .ok c
    | .error e => .error e

def ofFile (content : Option Bytes) : Except ManagerError Config :=
  match content.bind Bytes.toText? with
  | none => .error .io
  | some text => ofToml text

def load (disk : Disk) (path : String) : Except ManagerError Config :=
  ofFile (disk.contentAt? path)

def maxInteger : Nat := 9223372036854775807

def line (key value : String) : String := key ++ " = " ++ value ++ "\n"

/-- The settings as a document; numbers beyond what a document can hold make
that impossible. -/
def toToml (c : Config) : Except ManagerError String :=
  let numbers := [c.snapshotsBufferLen, c.maxConcurrentSnapshots, c.maxSnapshots,
    c.disableOldStorageEpoch, c.throttlePollIntervalMs, c.checkpointHashesMaxSize,
    c.snapshotDb.batchDelaySeconds]
  if numbers.any fun n => maxInteger < n then .error (.configParse "")
  else
    .ok (line "snapshots_buffer_len" (toString c.snapshotsBufferLen) ++
      line concurrencyKey (toString c.maxConcurrentSnapshots) ++
      line "max_snapshots" (toString c.maxSnapshots) ++
      line "keep_snapshots" (toString c.keepSnapshots) ++
      line "disable_old_storage_epoch" (toString c.disableOldStorageEpoch) ++
      line "throttle_poll_interval_ms" (toString c.throttlePollIntervalMs) ++
      line "checkpoint_hashes_max_size" (toString c.checkpointHashesMaxSize) ++
      "\n[snapshot_db]\n" ++
      (match c.snapshotDb.path with
        | some path => line "path" (Toml.writeString path)
        | none => "") ++
      line "batch_delay_seconds" (toString c.snapshotDb.batchDelaySeconds))

end Config

end TrieStorage
