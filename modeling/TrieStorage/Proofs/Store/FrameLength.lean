import TrieStorage.Proofs.Log.Frames
import TrieStorage.Proofs.Store.Recovery

/-!
# Records that are too long for their frame

A change is written whatever its size, but the header of its frame has room for lengths below 2^32
only, and holds no more than the remainder of a greater one.  A replay believes the header.  So a
record that does not fit is never found again, and what is written behind it is read from a place
where no frame begins.

* `Log.fits_of_replayFrom`: a replay finds nothing that does not fit.
* `LoggedStore.length_field_iff` says when the field is right, and what follows for later openings.
-/

namespace TrieStorage

namespace Frame

/-- A payload whose length leaves nothing in the header ends the log. -/
theorem split?_write_wrapped {payload : Bytes} (wrapped : payload.length % 2 ^ 32 = 0)
    (rest : Bytes) : split? (write payload ++ rest) = none := by
  by_contra some_
  obtain ⟨⟨f, left⟩, found⟩ := Option.ne_none_iff_exists'.1 some_
  obtain ⟨head, eight, same, length, -, full⟩ := split?_eq_some.1 found
  have written : head = header payload := by
    have front : header payload ++ payload ++ rest = head ++ (f.payload ++ left) := by
      rw [← List.append_assoc, ← same]
      rfl
    rw [List.append_assoc] at front
    exact (List.append_inj_left front (by rw [length_header, eight])).symm
  rw [written, take_header_mod, wrapped] at length
  exact full (List.length_eq_zero_iff.1 length.symm)

end Frame

namespace Log

/-- Whether every entry of a table would fit into a frame. -/
def Fitting (table : Table) : Prop :=
  ∀ key value, table.get? key = some value → (LogRecord.put key value).Fits

theorem fitting_empty : Fitting Table.empty := by
  intro key value found
  cases found

theorem Fitting.apply {table : Table} (h : Fitting table) {r : LogRecord} (fits : r.Fits) :
    Fitting (r.apply table) := by
  intro key value found
  rw [LogRecord.get?_apply] at found
  split at found
  · next own =>
    cases r with
    | put k v =>
      cases own
      cases found
      exact fits
    | remove k => cases found
  · exact h key value found

/-- A replay finds nothing that does not fit. -/
theorem fits_of_replayFrom {offset : Nat} {table result : Table} {log : Bytes}
    (h : Fitting table) (replayed : replayFrom offset table log = .ok result) : Fitting result := by
  fun_induction replayFrom offset table log with
  | case1 => exact Except.ok.inj replayed ▸ h
  | case2 offset table log frame rest found after intact record decoded ih =>
    have fits : record.Fits := (LogRecord.prefix_of_decode decoded).length_le.trans_lt
      (Frame.split?_eq_some_bytes.1 found).1.length_lt
    exact ih (h.apply fits) replayed
  | case3 => cases replayed
  | case4 offset table log frame rest found after damaged ih => exact ih h replayed

end Log

namespace LoggedStore

variable {disk : Disk} {dir : String} {id : FileId} {log : Bytes}

/-- A store that has been opened has nothing in it that would not fit into a frame. -/
theorem fits_of_openAt {s : LoggedStore} {disk' : Disk} {key value : Bytes}
    (h : HasLog disk dir id log) (opened : openAt disk dir = (.ok s, disk'))
    (found : s.get key = .ok (some value)) : (LogRecord.put key value).Fits := by
  rw [openAt_of_hasLog h] at opened
  cases replayed : Log.replay log with
  | error e =>
    rw [replayed] at opened
    cases opened
  | ok table =>
    rw [replayed] at opened
    cases opened
    exact Log.fits_of_replayFrom Log.fitting_empty replayed key value (Except.ok.inj found)

/-- An open store takes a change of whatever size, and writes a header of eight bytes and the record
behind its log.  The length in the header is that of the record exactly if the record fits, that is,
if its length is below 2^32.  As long as all records fit, a store opened later has what they leave.
A value whose record does not fit is in no store that is opened later, whatever comes after it. -/
theorem length_field_iff {s : LoggedStore} (opened : s.log = some id) (h : HasLog disk dir id log)
    (r : LogRecord) :
    (s.change disk r).1 = .ok () ∧
    (∃ header : Bytes, header.length = 8 ∧
      HasLog (s.change disk r).2.2 dir id (log ++ (header ++ r.encode)) ∧
      LittleEndian.decode (header.take 4) = r.encode.length % 2 ^ 32 ∧
      (LittleEndian.decode (header.take 4) = r.encode.length ↔ r.Fits)) ∧
    ∀ later, ∃ disk', s.changeAll disk (r :: later) =
        (.ok (), { s with table := (r :: later).foldl LogRecord.apply s.table }, disk') ∧
      (∀ records, log = Log.write records → (∀ x ∈ records ++ r :: later, x.Fits) →
        ∃ s', openAt disk' dir = (.ok s', disk') ∧
          ∀ key, s'.get key = .ok (LogRecord.lastValue? key (records ++ r :: later))) ∧
      ∀ key value s' disk'', r = .put key value → ¬ r.Fits →
        openAt disk' dir = (.ok s', disk'') → s'.get key ≠ .ok (some value) := by
  refine ⟨by rw [change_of_open opened], ⟨Frame.header r.encode, Frame.length_header _, ?_,
    Frame.take_header_mod _, ?_⟩, fun later => ?_⟩
  · rw [change_of_open opened]
    exact h.append (Frame.write r.encode)
  · rw [Frame.take_header_mod]
    exact Nat.mod_eq_iff_lt (by decide)
  · obtain ⟨disk', made, log'⟩ := changeAll_of_open opened h (r :: later)
    refine ⟨disk', made, fun records same fits => ?_, ?_⟩
    · rw [same, ← Log.write_append] at log'
      exact openAt_of_replay log' (Log.replay_write fits)
    · rintro key value s' disk'' rfl wraps again found
      exact wraps (fits_of_openAt log' again found)

/-- A small record fits, and its length is announced as it is. -/
theorem smallPut_announced :
    HasLog (logDisk []) "store" 0 [] ∧
      (LoggedStore.mk "store" (some 0) Table.empty).log = some 0 ∧
      (LogRecord.put [0x61] [0x31]).Fits ∧
      ∃ header : Bytes, header.length = 8 ∧
        LittleEndian.decode (header.take 4) = (LogRecord.put [0x61] [0x31]).encode.length := by
  have fits : (LogRecord.put [0x61] [0x31]).Fits := by decide
  have opened : (LoggedStore.mk "store" (some 0) Table.empty).log = some 0 := rfl
  obtain ⟨-, ⟨header, eight, -, -, right⟩, -⟩ :=
    length_field_iff opened (hasLog_logDisk []) (.put [0x61] [0x31])
  exact ⟨hasLog_logDisk [], opened, fits, header, eight, right.2 fits⟩

/-- Where the length of a record is a multiple of 2^32, its frame announces nothing, and a store
that is opened later has neither that record nor any that was written after it. -/
theorem lost_behind_wrapped {s : LoggedStore} (opened : s.log = some id)
    {records : List LogRecord} (h : HasLog disk dir id (Log.write records))
    (fits : ∀ x ∈ records, x.Fits) {r : LogRecord} (wrapped : r.encode.length % 2 ^ 32 = 0)
    (later : List LogRecord) : ∃ disk', s.changeAll disk (r :: later) =
        (.ok (), { s with table := (r :: later).foldl LogRecord.apply s.table }, disk') ∧
      ∃ s', openAt disk' dir = (.ok s', disk') ∧
        ∀ key, s'.get key = .ok (LogRecord.lastValue? key records) := by
  obtain ⟨disk', made, log'⟩ := changeAll_of_open opened h (r :: later)
  refine ⟨disk', made, openAt_of_replay log' ?_⟩
  have front : Log.write (r :: later) = Frame.write r.encode ++ Log.write later := rfl
  rw [front]
  exact replay_torn fits (Frame.split?_write_wrapped wrapped _)

/-- A value of 2^32 - 20 bytes under the empty key makes a record of 2^32 bytes.  Both puts are
taken, the second one is read back, and a store that is opened after that has nothing at all. -/
theorem wrappedPut_loses :
    let big : LogRecord := .put [] (List.replicate (2 ^ 32 - 20) 0)
    big.encode.length = 2 ^ 32 ∧ LittleEndian.decode ((Frame.header big.encode).take 4) = 0 ∧
    ∃ s s' s'' disk', openAt (logDisk []) "store" = (.ok s, logDisk []) ∧
      s.changeAll (logDisk []) [big, .put [1] [2]] = (.ok (), s', disk') ∧
      s'.get [1] = .ok (some [2]) ∧
      openAt disk' "store" = (.ok s'', disk') ∧ s''.get [] = .ok none ∧ s''.get [1] = .ok none := by
  intro big
  have length : big.encode.length = 2 ^ 32 := by
    rw [LogRecord.length_encode_put, List.length_replicate]
    decide
  have wrapped : big.encode.length % 2 ^ 32 = 0 := by
    rw [length]
    decide
  have first : openAt (logDisk []) "store" = (.ok ⟨"store", some 0, Table.empty⟩, logDisk []) := by
    rw [openAt_of_hasLog (hasLog_logDisk []), Log.replay_nil]
  have empty : HasLog (logDisk []) "store" 0 (Log.write []) := hasLog_logDisk []
  obtain ⟨disk', made, s'', again, got⟩ :=
    lost_behind_wrapped (s := ⟨"store", some 0, Table.empty⟩) rfl empty (by simp) wrapped
      [.put [1] [2]]
  refine ⟨length, ?_, _, _, s'', disk', first, made, ?_, again, got [], got [1]⟩
  · rw [Frame.take_header_mod, wrapped]
  · refine congrArg Except.ok ?_
    rw [List.foldl_cons, List.foldl_cons, List.foldl_nil, LogRecord.get?_apply]
    exact if_pos rfl

end LoggedStore

end TrieStorage
