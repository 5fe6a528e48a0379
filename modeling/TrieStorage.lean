import TrieStorage.Bytes.Basic
import TrieStorage.Bytes.Hex
import TrieStorage.Bytes.Layout
import TrieStorage.Bytes.LittleEndian
import TrieStorage.CommandLine.Arguments
import TrieStorage.CommandLine.Footprint
import TrieStorage.CommandLine.Invocation
import TrieStorage.CommandLine.Report
import TrieStorage.CommandLine.Run
import TrieStorage.Config.Basic
import TrieStorage.Config.Document
import TrieStorage.Digest.Blake3
import TrieStorage.Digest.Crc32
import TrieStorage.Disk.Basic
import TrieStorage.Disk.Path
import TrieStorage.Generation.Basic
import TrieStorage.Generation.Discovery
import TrieStorage.Generation.Legacy
import TrieStorage.Log.Frame
import TrieStorage.Log.Loop
import TrieStorage.Log.Record
import TrieStorage.Log.Replay
import TrieStorage.Main
import TrieStorage.Manager.Assembly
import TrieStorage.Manager.Basic
import TrieStorage.Manager.EpochHub
import TrieStorage.Manager.Error
import TrieStorage.Manager.Event
import TrieStorage.Manager.Moves
import TrieStorage.Manager.Request
import TrieStorage.Manager.Settle
import TrieStorage.Manager.Statistics
import TrieStorage.Manager.Throttle
import TrieStorage.Manager.Tracker
import TrieStorage.Manager.Vault
import TrieStorage.Manager.Walk
import TrieStorage.Node.Basic
import TrieStorage.Node.Codec
import TrieStorage.Node.Hash
import TrieStorage.Proofs.Bytes.Layout
import TrieStorage.Proofs.Bytes.TextOrder
import TrieStorage.Proofs.CommandLine.Restart
import TrieStorage.Proofs.Digest.Crc32
import TrieStorage.Proofs.Disk.Files
import TrieStorage.Proofs.Disk.Listing
import TrieStorage.Proofs.Disk.Names
import TrieStorage.Proofs.Disk.Places
import TrieStorage.Proofs.Disk.Ways
import TrieStorage.Proofs.Generation.Archive
import TrieStorage.Proofs.Generation.Directories
import TrieStorage.Proofs.Generation.Growth
import TrieStorage.Proofs.Generation.Keeping
import TrieStorage.Proofs.Generation.Numbering
import TrieStorage.Proofs.Generation.Outcome
import TrieStorage.Proofs.Generation.Retention
import TrieStorage.Proofs.Generation.Spelling
import TrieStorage.Proofs.Generation.Succession
import TrieStorage.Proofs.Log.Damage
import TrieStorage.Proofs.Log.Frames
import TrieStorage.Proofs.Log.Loop
import TrieStorage.Proofs.Log.Record
import TrieStorage.Proofs.Log.Replay
import TrieStorage.Proofs.Log.Torn
import TrieStorage.Proofs.Manager.Accounts
import TrieStorage.Proofs.Manager.Actions
import TrieStorage.Proofs.Manager.Addressed
import TrieStorage.Proofs.Manager.Admission
import TrieStorage.Proofs.Manager.Alone
import TrieStorage.Proofs.Manager.Backed
import TrieStorage.Proofs.Manager.Capacity
import TrieStorage.Proofs.Manager.Closing
import TrieStorage.Proofs.Manager.FreshGenerations
import TrieStorage.Proofs.Manager.Generations
import TrieStorage.Proofs.Manager.Isolation
import TrieStorage.Proofs.Manager.LateStart
import TrieStorage.Proofs.Manager.Ledger
import TrieStorage.Proofs.Manager.MainStore
import TrieStorage.Proofs.Manager.Migration
import TrieStorage.Proofs.Manager.Moves
import TrieStorage.Proofs.Manager.OpenTargets
import TrieStorage.Proofs.Manager.Passage
import TrieStorage.Proofs.Manager.PendingHashes
import TrieStorage.Proofs.Manager.Prohibitions
import TrieStorage.Proofs.Manager.PutThenGet
import TrieStorage.Proofs.Manager.Recordings
import TrieStorage.Proofs.Manager.Recurrence
import TrieStorage.Proofs.Manager.Removal
import TrieStorage.Proofs.Manager.Restart
import TrieStorage.Proofs.Manager.Runs
import TrieStorage.Proofs.Manager.Sealed
import TrieStorage.Proofs.Manager.Shutdown
import TrieStorage.Proofs.Manager.Slots
import TrieStorage.Proofs.Manager.Snapshot
import TrieStorage.Proofs.Manager.SnapshotCosts
import TrieStorage.Proofs.Manager.Target
import TrieStorage.Proofs.Manager.Termination
import TrieStorage.Proofs.Manager.Tracker
import TrieStorage.Proofs.Manager.Transparency
import TrieStorage.Proofs.Manager.Withdrawals
import TrieStorage.Proofs.Node.Codec
import TrieStorage.Proofs.Storage.Addressed
import TrieStorage.Proofs.Storage.Backed
import TrieStorage.Proofs.Storage.Closing
import TrieStorage.Proofs.Storage.Contents
import TrieStorage.Proofs.Storage.Copying
import TrieStorage.Proofs.Storage.Scanning
import TrieStorage.Proofs.Storage.Shut
import TrieStorage.Proofs.Storage.Verdicts
import TrieStorage.Proofs.Store.Addressed
import TrieStorage.Proofs.Store.Answers
import TrieStorage.Proofs.Store.Closing
import TrieStorage.Proofs.Store.Flat
import TrieStorage.Proofs.Store.FrameLength
import TrieStorage.Proofs.Store.Hindrances
import TrieStorage.Proofs.Store.Histories
import TrieStorage.Proofs.Store.Logged
import TrieStorage.Proofs.Store.Opening
import TrieStorage.Proofs.Store.Partitions
import TrieStorage.Proofs.Store.Puts
import TrieStorage.Proofs.Store.Recovery
import TrieStorage.Proofs.Store.Removals
import TrieStorage.Proofs.Walk.Checkpoint
import TrieStorage.Proofs.Walk.Copies
import TrieStorage.Proofs.Walk.Isolation
import TrieStorage.Proofs.Walk.Pending
import TrieStorage.Proofs.Walk.Preorder
import TrieStorage.Proofs.Walk.Silence
import TrieStorage.Proofs.Walk.Snapshot
import TrieStorage.Proofs.Walk.Solo
import TrieStorage.Proofs.Walk.Steps
import TrieStorage.Proofs.Walk.Trie
import TrieStorage.Proofs.Walk.Turns
import TrieStorage.Storage.Basic
import TrieStorage.Storage.Layer
import TrieStorage.Store.Error
import TrieStorage.Store.Kinds
import TrieStorage.Store.Logged
import TrieStorage.Store.Memory
import TrieStorage.Store.Partitioned
import TrieStorage.Store.Table
import TrieStorage.Text.Decimal
import TrieStorage.Text.Json
import TrieStorage.Text.Printable
import TrieStorage.Text.Quoted
import TrieStorage.Toml.Document
import TrieStorage.Toml.Number
import TrieStorage.Toml.Scan
import TrieStorage.Toml.Text
import TrieStorage.Toml.Value
