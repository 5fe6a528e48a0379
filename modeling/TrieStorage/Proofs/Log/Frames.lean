import TrieStorage.Proofs.Log.Replay

/-!
# The frames of a log

Whatever bytes a log consists of, it is made of frames up to a place where no further one begins,
because the header there is cut off, announces nothing, or announces more than there is.  A replay
comes to what these frames stand for: it applies the records of those whose checksums are right, and
fails at the first of them that does not hold a record.
-/

namespace TrieStorage

namespace Frame

/-- The bytes of a frame. -/
def bytes (f : Frame) : Bytes :=
  LittleEndian.encode 4 f.payload.length ++ LittleEndian.encode 4 f.sum ++ f.payload

/-- Whether a header can tell what is in the frame, and is one that does not end a log. -/
structure Sound (f : Frame) : Prop where
  full : f.payload ≠ []
  length_lt : f.payload.length < 2 ^ 32
  sum_lt : f.sum < 2 ^ 32

instance (f : Frame) : Decidable f.Sound :=
  decidable_of_iff (f.payload ≠ [] ∧ f.payload.length < 2 ^ 32 ∧ f.sum < 2 ^ 32)
    ⟨fun h => ⟨h.1, h.2.1, h.2.2⟩, fun h => ⟨h.full, h.length_lt, h.sum_lt⟩⟩

/-- Whether no frame begins a string of bytes. -/
def Broken (log : Bytes) : Prop :=
  log.length < headerSize ∨ LittleEndian.decode (log.take 4) = 0 ∨
    log.length < headerSize + LittleEndian.decode (log.take 4)

instance (log : Bytes) : Decidable (Broken log) := inferInstanceAs (Decidable (_ ∨ _ ∨ _))

/-- Whether the checksum is right, and the payload does not read as a record. -/
def Corrupt (f : Frame) (e : LayoutError) : Prop :=
  f.intact = true ∧ LogRecord.decode f.payload = .error e

theorem length_bytes (f : Frame) : f.bytes.length = f.size := by
  simp only [bytes, List.length_append, LittleEndian.length_encode, size, headerSize]

theorem split?_eq_none {log : Bytes} : split? log = none ↔ Broken log := by
  unfold split? Broken
  by_cases short : log.length < headerSize
  · rw [if_pos short]
    exact ⟨fun _ => .inl short, fun _ => rfl⟩
  · have rest : log.length < headerSize + LittleEndian.decode (log.take 4) ↔
        log.length - headerSize < LittleEndian.decode (log.take 4) := by omega
    rw [if_neg short]
    simp only [short, false_or, rest, List.length_drop, ite_eq_left_iff, reduceCtorEq, imp_false,
      not_not]

/-- What is split off is told by its bytes. -/
theorem split?_eq_some_bytes {log rest : Bytes} {f : Frame} :
    split? log = some (f, rest) ↔ f.Sound ∧ log = f.bytes ++ rest := by
  rw [split?_eq_some]
  constructor
  · rintro ⟨header, eight, rfl, length, sum, full⟩
    have four : (header.take 4).length = 4 := by
      rw [List.length_take, eight]
      rfl
    have four' : (header.drop 4).length = 4 := by
      rw [List.length_drop, eight]
      rfl
    have whole : (header.drop 4).take 4 = header.drop 4 := List.take_of_length_le (Nat.le_of_eq four')
    rw [whole] at sum
    have lengthBytes := LittleEndian.encode_decode (header.take 4)
    have sumBytes := LittleEndian.encode_decode (header.drop 4)
    have lengthBound := LittleEndian.decode_lt (header.take 4)
    have sumBound := LittleEndian.decode_lt (header.drop 4)
    rw [four, length] at lengthBytes lengthBound
    rw [four', sum] at sumBytes sumBound
    refine ⟨⟨full, lengthBound, sumBound⟩, ?_⟩
    rw [bytes, lengthBytes, sumBytes, List.take_append_drop]
  · rintro ⟨⟨full, lengthBound, sumBound⟩, rfl⟩
    refine ⟨LittleEndian.encode 4 f.payload.length ++ LittleEndian.encode 4 f.sum, ?_, rfl, ?_, ?_,
      full⟩
    · rw [List.length_append, LittleEndian.length_encode, LittleEndian.length_encode]
      rfl
    · rw [List.take_left' (LittleEndian.length_encode 4 _)]
      exact LittleEndian.decode_encode lengthBound
    · rw [List.drop_left' (LittleEndian.length_encode 4 _),
        List.take_of_length_le (Nat.le_of_eq (LittleEndian.length_encode 4 _))]
      exact LittleEndian.decode_encode sumBound

end Frame

namespace Log

open LogRecord

/-- The bytes of frames in a row. -/
def bytes (frames : List Frame) : Bytes := frames.flatMap Frame.bytes

theorem bytes_cons (f : Frame) (frames : List Frame) : bytes (f :: frames) = f.bytes ++ bytes frames :=
  rfl

theorem length_bytes_concat (frames : List Frame) (f : Frame) :
    (bytes (frames ++ [f])).length = (bytes frames).length + f.size := by
  simp only [bytes, List.flatMap_append, List.flatMap_singleton, List.length_append, f.length_bytes]

/-- Whether a log is made of frames, and of a rest that no frame begins. -/
structure Framed (log : Bytes) (frames : List Frame) (tail : Bytes) : Prop where
  same : log = bytes frames ++ tail
  sound : ∀ f ∈ frames, f.Sound
  broken : Frame.Broken tail

/-- Every log is made of frames. -/
theorem exists_framed (log : Bytes) : ∃ frames tail, Framed log frames tail := by
  cases found : Frame.split? log with
  | none => exact ⟨[], log, rfl, nofun, Frame.split?_eq_none.1 found⟩
  | some head =>
    obtain ⟨f, rest⟩ := head
    obtain ⟨sound, same⟩ := Frame.split?_eq_some_bytes.1 found
    obtain ⟨frames, tail, same', sound', broken⟩ := exists_framed rest
    refine ⟨f :: frames, tail, ?_, List.forall_mem_cons.2 ⟨sound, sound'⟩, broken⟩
    rw [same, bytes_cons, List.append_assoc, ← same']
termination_by log.length
decreasing_by exact Frame.length_lt_of_split? found

/-- The records of frames, as far as the checksums are right. -/
def Holds (frames : List Frame) (records : List LogRecord) : Prop :=
  (frames.filter Frame.intact).map (fun f => LogRecord.decode f.payload) = records.map .ok

/-- Frames that are not corrupt are replayed to the records that they hold. -/
theorem replayFrom_bytes {frames : List Frame} (sound : ∀ f ∈ frames, f.Sound)
    (readable : ∀ f ∈ frames, ∀ e, ¬ f.Corrupt e) :
    ∃ records, Holds frames records ∧ ∀ offset table rest,
      replayFrom offset table (bytes frames ++ rest) =
        replayFrom (offset + (bytes frames).length) (records.foldl apply table) rest := by
  induction frames with
  | nil => exact ⟨[], rfl, fun _ _ _ => rfl⟩
  | cons f frames ih =>
    obtain ⟨sound₁, sound⟩ := List.forall_mem_cons.1 sound
    obtain ⟨readable₁, readable⟩ := List.forall_mem_cons.1 readable
    obtain ⟨records, holds, later⟩ := ih sound readable
    have first (rest : Bytes) : Frame.split? (f.bytes ++ rest) = some (f, rest) :=
      Frame.split?_eq_some_bytes.2 ⟨sound₁, rfl⟩
    have length : (bytes (f :: frames)).length = f.size + (bytes frames).length := by
      rw [bytes_cons, List.length_append, f.length_bytes]
    by_cases intact : f.intact = true
    · cases decoded : LogRecord.decode f.payload with
      | error e => exact absurd ⟨intact, decoded⟩ (readable₁ e)
      | ok r =>
        refine ⟨r :: records, ?_, fun offset table rest => ?_⟩
        · rw [Holds, List.filter_cons_of_pos intact, List.map_cons, List.map_cons, decoded, holds]
        · rw [bytes_cons, List.append_assoc, replayFrom_of_some (first _), if_pos intact,
            ← bytes_cons, length, ← Nat.add_assoc, List.foldl_cons]
          simp only [decoded, later]
    · refine ⟨records, ?_, fun offset table rest => ?_⟩
      · rw [Holds, List.filter_cons_of_neg intact, holds]
      · rw [bytes_cons, List.append_assoc, replayFrom_of_some (first _), if_neg intact, later,
          ← bytes_cons, length, ← Nat.add_assoc]

/-- If there is a corrupt frame, there is a first one. -/
theorem exists_first_corrupt {frames : List Frame} (h : ∃ f ∈ frames, ∃ e, f.Corrupt e) :
    ∃ before f after e, frames = before ++ f :: after ∧ f.Corrupt e ∧
      ∀ g ∈ before, ∀ e', ¬ g.Corrupt e' := by
  induction frames with
  | nil => simp at h
  | cons f frames ih =>
    by_cases own : ∃ e, f.Corrupt e
    · obtain ⟨e, own⟩ := own
      exact ⟨[], f, frames, e, rfl, own, nofun⟩
    · have later : ∃ g ∈ frames, ∃ e, g.Corrupt e := by simpa [own] using h
      obtain ⟨before, g, after, e, rfl, corrupt, readable⟩ := ih later
      exact ⟨f :: before, g, after, e, rfl, corrupt,
        List.forall_mem_cons.2 ⟨not_exists.1 own, readable⟩⟩

namespace Framed

variable {log : Bytes} {frames : List Frame} {tail : Bytes}

/-- Without a corrupt frame, replaying gives the table of the records in the frames. -/
theorem replay_readable (h : Framed log frames tail) (readable : ∀ f ∈ frames, ∀ e, ¬ f.Corrupt e) :
    ∃ records, Holds frames records ∧ replay log = .ok (records.foldl apply Table.empty) := by
  obtain ⟨records, holds, passed⟩ := replayFrom_bytes h.sound readable
  refine ⟨records, holds, ?_⟩
  rw [replay, h.same, passed, replayFrom_of_none (Frame.split?_eq_none.2 h.broken)]

/-- Every frame is split off where it stands. -/
theorem split?_drop (h : Framed log frames tail) {before after : List Frame} {f : Frame}
    (place : frames = before ++ f :: after) :
    log = bytes before ++ (f.bytes ++ (bytes after ++ tail)) ∧
      Frame.split? (f.bytes ++ (bytes after ++ tail)) = some (f, bytes after ++ tail) := by
  subst place
  refine ⟨?_, Frame.split?_eq_some_bytes.2 ⟨h.sound f (by simp), rfl⟩⟩
  rw [h.same, bytes, List.flatMap_append, List.flatMap_cons, List.append_assoc, List.append_assoc]
  rfl

/-- Replaying fails at the first corrupt frame, with the offset of what is behind it. -/
theorem replay_corrupt (h : Framed log frames tail) {before after : List Frame} {f : Frame}
    {e : LayoutError} (place : frames = before ++ f :: after) (corrupt : f.Corrupt e)
    (readable : ∀ g ∈ before, ∀ e', ¬ g.Corrupt e') :
    replay log = .error (.corruptRecord (bytes (before ++ [f])).length e.message) := by
  have sound : ∀ g ∈ before, g.Sound := fun g mem => h.sound g (by simp [place, mem])
  obtain ⟨records, -, passed⟩ := replayFrom_bytes sound readable
  obtain ⟨apart, found⟩ := h.split?_drop place
  rw [replay, apart, passed, replayFrom_of_some found, if_pos corrupt.1, Nat.zero_add,
    length_bytes_concat]
  simp only [corrupt.2]

/-- Replaying fails exactly if there is a corrupt frame. -/
theorem replay_fails_iff (h : Framed log frames tail) :
    (∃ offset reason, replay log = .error (.corruptRecord offset reason)) ↔
      ∃ f ∈ frames, ∃ e, f.Corrupt e := by
  constructor
  · rintro ⟨offset, reason, failed⟩
    by_contra none
    have readable : ∀ f ∈ frames, ∀ e, ¬ f.Corrupt e := by simpa using none
    obtain ⟨records, -, replayed⟩ := h.replay_readable readable
    rw [replayed] at failed
    cases failed
  · intro some_
    obtain ⟨before, f, after, e, place, corrupt, readable⟩ := exists_first_corrupt some_
    exact ⟨_, _, h.replay_corrupt place corrupt readable⟩

end Framed

end Log

end TrieStorage
