import Mathlib.Data.List.Infix
import TrieStorage.Proofs.Log.Damage
import TrieStorage.Proofs.Log.Torn
import TrieStorage.Proofs.Store.Logged

/-!
# Opening a store on a log that has suffered

Opening replays the records that are whole, be the log cut off anywhere or be there a changed
byte in some frames, and leaves the log as it is.  The changes made after a cut are written
behind the torn front of the next record.  They are all found again exactly if the cut fell
between two records: `keeps_all_iff`.
-/

namespace TrieStorage

namespace LoggedStore

/-- A store opened now makes the changes, and a store opened after that has under every
key what the first one has.  Closing or dropping the first one in between makes no
difference, since neither reaches the disk. -/
def Keeps (disk : Disk) (dir : String) (changes : List LogRecord) : Prop :=
  ∃ s s' s'' disk₁ disk₂ disk₃, openAt disk dir = (.ok s, disk₁) ∧
    s.changeAll disk₁ changes = (.ok (), s', disk₂) ∧ openAt disk₂ dir = (.ok s'', disk₃) ∧
    ∀ key, s''.get key = s'.get key

section

variable {disk : Disk} {dir : String} {id : FileId}

/-- Where a log replays to a table, keeping changes comes down to what replaying it
with their frames behind it gives. -/
theorem keeps_iff {log : Bytes} {table : Table} (h : HasLog disk dir id log)
    (replayed : Log.replay log = .ok table) (changes : List LogRecord) :
    Keeps disk dir changes ↔ ∃ result, Log.replay (log ++ Log.write changes) = .ok result ∧
      ∀ key, result.get? key = (changes.foldl LogRecord.apply table).get? key := by
  have first : openAt disk dir = (.ok ⟨dir, some id, table⟩, disk) := by
    rw [openAt_of_hasLog h, replayed]
  obtain ⟨disk', made, log'⟩ := changeAll_of_open rfl h changes (s := ⟨dir, some id, table⟩)
  have second := openAt_of_hasLog log'
  constructor
  · rintro ⟨s, s', s'', disk₁, disk₂, disk₃, opened, changed, reopened, same⟩
    rw [first] at opened
    cases opened
    rw [made] at changed
    cases changed
    rw [second] at reopened
    cases again : Log.replay (log ++ Log.write changes) with
    | error e =>
      rw [again] at reopened
      cases reopened
    | ok result =>
      rw [again] at reopened
      cases reopened
      exact ⟨result, rfl, fun key => Except.ok.inj (same key)⟩
  · rintro ⟨result, again, same⟩
    rw [again] at second
    exact ⟨_, _, _, _, _, _, first, made, second, fun key => congrArg Except.ok (same key)⟩

/-- A log that was cut off anywhere opens with the records that are whole. -/
theorem replay_torn {whole : List LogRecord} {torn : Bytes} (fits : ∀ r ∈ whole, r.Fits)
    (stuck : Frame.split? torn = none) :
    Log.replay (Log.write whole ++ torn) = .ok (whole.foldl LogRecord.apply Table.empty) := by
  rw [Log.replay, Log.replayFrom_write fits, Log.replayFrom_of_none stuck]

/-- After a cut between two records, a store keeps all changes that it makes. -/
theorem keeps_of_whole {whole changes : List LogRecord} (h : HasLog disk dir id (Log.write whole))
    (fits : ∀ r ∈ whole, r.Fits) (fits' : ∀ r ∈ changes, r.Fits) : Keeps disk dir changes := by
  refine (keeps_iff h (Log.replay_write fits) changes).2
    ⟨(whole ++ changes).foldl LogRecord.apply Table.empty, ?_, fun key => by rw [List.foldl_append]⟩
  rw [← Log.write_append, Log.replay_write]
  intro r mem
  exact (List.mem_append.1 mem).elim (fits r) (fits' r)

/-- After a cut inside a record, a store loses a change of the empty key. -/
theorem not_keeps_of_torn {whole : List LogRecord} {r : LogRecord} {torn : Bytes}
    (h : HasLog disk dir id (Log.write whole ++ torn)) (fits : ∀ x ∈ whole, x.Fits)
    (fits' : r.Fits) (cut : Log.Torn r torn) (full : torn ≠ []) :
    ¬ Keeps disk dir [Log.probe (whole.foldl LogRecord.apply Table.empty)] := by
  intro keeps
  obtain ⟨result, again, same⟩ :=
    (keeps_iff h (replay_torn fits (Log.split?_of_torn fits' cut)) _).1 keeps
  rw [Log.write_singleton, List.append_assoc, Log.replay, Log.replayFrom_write fits] at again
  exact Log.lost_behind_torn fits' cut full _ again (same [])

/-- On a log that was cut off, a store keeps whatever changes it makes exactly if the
cut left whole records only. -/
theorem keeps_all_iff {records : List LogRecord} (fits : ∀ r ∈ records, r.Fits) {cut : Nat}
    (h : HasLog disk dir id ((Log.write records).take cut)) :
    (∀ changes : List LogRecord, (∀ r ∈ changes, r.Fits) → Keeps disk dir changes) ↔
      ∃ whole, whole <+: records ∧ (Log.write records).take cut = Log.write whole := by
  constructor
  · intro keeps
    obtain ⟨whole, left, torn, rfl, same, tail⟩ := Log.take_write records cut
    have fits_ : ∀ r ∈ whole, r.Fits := fun r mem => fits r (List.mem_append_left left mem)
    refine ⟨whole, List.prefix_append whole left, ?_⟩
    by_cases full : torn = []
    · rw [same, full, List.append_nil]
    · rcases tail with none | ⟨r, more, rfl, torn_⟩
      · exact absurd none full
      · rw [same] at h
        have fits' : r.Fits := fits r (List.mem_append_right whole List.mem_cons_self)
        refine absurd (keeps _ fun x mem => ?_) (not_keeps_of_torn h fits_ fits' torn_ full)
        rw [List.mem_singleton.1 mem]
        exact Log.fits_probe _
  · rintro ⟨whole, front, same⟩ changes fits'
    rw [same] at h
    exact keeps_of_whole h (fun r mem => fits r (front.subset mem)) fits'

end

/-! ## What is left of a log -/

section

variable {disk : Disk} {dir : String} {id : FileId} {log : Bytes}

/-- Where a log replays to the table of some records, a store has the last value of each key. -/
theorem openAt_of_replay {records : List LogRecord} (h : HasLog disk dir id log)
    (replayed : Log.replay log = .ok (records.foldl LogRecord.apply Table.empty)) :
    ∃ s, openAt disk dir = (.ok s, disk) ∧
      ∀ key, s.get key = .ok (LogRecord.lastValue? key records) := by
  refine ⟨_, by rw [openAt_of_hasLog h, replayed], fun key => ?_⟩
  exact congrArg Except.ok (LogRecord.get?_foldl_empty records key)

/-- On a log that was cut off anywhere, a store opens with what the records leave whose frames
lie within the cut. -/
theorem openAt_cut {records : List LogRecord} (fits : ∀ r ∈ records, r.Fits) {cut : Nat}
    (h : HasLog disk dir id ((Log.write records).take cut)) :
    ∃ s, openAt disk dir = (.ok s, disk) ∧
      ∀ key, s.get key = .ok (LogRecord.lastValue? key (Log.within cut records)) := by
  obtain ⟨torn, same, stuck⟩ := Log.take_write_eq fits cut
  refine openAt_of_replay h ?_
  rw [same]
  exact replay_torn (fun r mem => fits r (Log.within_subset cut records mem)) stuck

end

/-- A disk with a store on it that has a log. -/
def logDisk (log : Bytes) : Disk where
  entries := [(["store"], .directory), (["store", "data.log"], .file 0)]
  files := [log]

theorem hasLog_logDisk (log : Bytes) : HasLog (logDisk log) "store" 0 log := ⟨by rfl, rfl⟩

/-- Three records, whose frames end after 30, 61 and 82 bytes. -/
def threeRecords : List LogRecord :=
  [.put [0x61] [0x31], .put [0x62] [0x32, 0x33], .remove [0x61]]

/-- Cut inside the third payload, the log has the first two records. -/
theorem threeRecords_cut :
    ∃ s, openAt (logDisk ((Log.write threeRecords).take 70)) "store" =
        (.ok s, logDisk ((Log.write threeRecords).take 70)) ∧
      s.get [0x61] = .ok (some [0x31]) ∧ s.get [0x62] = .ok (some [0x32, 0x33]) := by
  have fits : ∀ r ∈ threeRecords, r.Fits := by decide
  have whole : Log.within 70 threeRecords = threeRecords.take 2 := by decide +kernel
  obtain ⟨s, opened, got⟩ := openAt_cut fits (hasLog_logDisk ((Log.write threeRecords).take 70))
  rw [whole] at got
  exact ⟨s, opened, got [0x61], got [0x62]⟩

/-- On a log in which one byte of some frames has changed, behind their length fields, a store
opens with what all other records leave. -/
theorem openAt_damaged {disk : Disk} {dir : String} {id : FileId}
    {entries : List (LogRecord × Option Frame.Flaw)} (fits : ∀ e ∈ entries, e.1.Fits)
    (hits : ∀ e ∈ entries, ∀ flaw ∈ e.2, flaw.Hits e.1.encode)
    (h : HasLog disk dir id (Log.writeDamaged entries)) :
    ∃ s, openAt disk dir = (.ok s, disk) ∧
      ∀ key, s.get key = .ok (LogRecord.lastValue? key (Log.spared entries)) :=
  openAt_of_replay h (Log.replayFrom_writeDamaged fits hits 0 Table.empty)

/-- The three records; the tag of the second has become that of a removal, and in the third a
byte of the checksum has changed. -/
def flawedRecords : List (LogRecord × Option Frame.Flaw) :=
  [(.put [0x61] [0x31], none), (.put [0x62] [0x32, 0x33], some ⟨8, 1⟩), (.remove [0x61], some ⟨5, 0⟩)]

theorem flawedRecords_open :
    ∃ s, openAt (logDisk (Log.writeDamaged flawedRecords)) "store" =
        (.ok s, logDisk (Log.writeDamaged flawedRecords)) ∧
      s.get [0x61] = .ok (some [0x31]) ∧ s.get [0x62] = .ok none := by
  have fits : ∀ e ∈ flawedRecords, e.1.Fits := by decide
  have hits : ∀ e ∈ flawedRecords, ∀ flaw ∈ e.2, flaw.Hits e.1.encode := by decide +kernel
  obtain ⟨s, opened, got⟩ := openAt_damaged fits hits (hasLog_logDisk _)
  exact ⟨s, opened, got [0x61], got [0x62]⟩

/-! ## Writing on -/

/-- A log with one record in it, 30 bytes long. -/
def shortLog : Bytes := Log.write [.put [0x61] [0x31]]

/-- A disk with a store on it, whose log was cut off. -/
def cutDisk (cut : Nat) : Disk where
  entries := [(["store"], .directory), (["store", "data.log"], .file 0)]
  files := [shortLog.take cut]

/-- Cut after five bytes, the store loses changes; cut at the end, it keeps them. -/
theorem cutDisk_keeps_all :
    ¬ (∀ changes : List LogRecord, (∀ r ∈ changes, r.Fits) → Keeps (cutDisk 5) "store" changes) ∧
      Keeps (cutDisk 30) "store" [.put [0x62] [0x32]] := by
  have fits : ∀ r ∈ [LogRecord.put [0x61] [0x31]], r.Fits := by decide
  have five : HasLog (cutDisk 5) "store" 0 (shortLog.take 5) :=
    ⟨by decide +kernel, by decide +kernel⟩
  have thirty : HasLog (cutDisk 30) "store" 0 (shortLog.take 30) :=
    ⟨by decide +kernel, by decide +kernel⟩
  constructor
  · intro keeps
    obtain ⟨whole, front, same⟩ := (keeps_all_iff fits five).1 keeps
    have none : ∀ whole ∈ [LogRecord.put [0x61] [0x31]].inits, shortLog.take 5 ≠ Log.write whole := by
      decide +kernel
    exact none whole ((List.mem_inits _ _).2 front) same
  · refine (keeps_all_iff fits thirty).2 ⟨[.put [0x61] [0x31]], List.prefix_rfl, ?_⟩ _ (by decide)
    decide +kernel

/-- A value put into a store on a log that was cut off after five bytes is not there any
more when the store is opened again. -/
theorem cutDisk_loses :
    HasLog (cutDisk 5) "store" 0 (shortLog.take 5) ∧ (LogRecord.put [0x62] [0x32]).Fits ∧
      ¬ Keeps (cutDisk 5) "store" [.put [0x62] [0x32]] := by
  have log : HasLog (cutDisk 5) "store" 0 (shortLog.take 5) :=
    ⟨by decide +kernel, by decide +kernel⟩
  have first : Log.replay (shortLog.take 5) = .ok Table.empty :=
    Log.replayFrom_of_inert (by decide +kernel) 0 Table.empty
  have again : Log.replay (shortLog.take 5 ++ Log.write [.put [0x62] [0x32]]) = .ok Table.empty :=
    Log.replayFrom_of_inert (by decide +kernel) 0 Table.empty
  refine ⟨log, by decide, fun keeps => ?_⟩
  obtain ⟨result, ok, same⟩ := (keeps_iff log first _).1 keeps
  rw [again] at ok
  cases ok
  exact absurd (same [0x62]) (by decide)

end LoggedStore

end TrieStorage
