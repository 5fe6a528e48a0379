import TrieStorage.Log.Replay
import TrieStorage.Proofs.Log.Record

/-!
# Replaying whole records

The frame of a payload that fits its header is split off as it was written.  So
replaying a log that starts with the frames of some records applies them in their
order and goes on behind them, and a log cut off anywhere consists of the frames
of some of its records and the torn front of the next one.
-/

namespace TrieStorage

namespace Frame

@[simp] theorem length_write (payload : Bytes) : (write payload).length = 8 + payload.length := by
  simp only [write, List.length_append, LittleEndian.length_encode]

/-- The frame that is split off where a payload has been written. -/
def ofPayload (payload : Bytes) : Frame := ⟨(Crc32.checksum payload).toNat, payload⟩

@[simp] theorem intact_ofPayload (payload : Bytes) : (ofPayload payload).intact = true :=
  decide_eq_true rfl

/-- The header of a payload's frame. -/
def header (payload : Bytes) : Bytes :=
  LittleEndian.encode 4 payload.length ++ LittleEndian.encode 4 (Crc32.checksum payload).toNat

@[simp] theorem length_header (payload : Bytes) : (header payload).length = headerSize := by
  simp only [header, List.length_append, LittleEndian.length_encode, headerSize]

/-- The length field holds the length as far as it has room for it. -/
theorem take_header_mod (payload : Bytes) :
    LittleEndian.decode ((header payload).take 4) = payload.length % 2 ^ 32 := by
  rw [header, List.take_left' (LittleEndian.length_encode 4 payload.length)]
  exact LittleEndian.decode_encode_mod 4 payload.length

theorem take_header {payload : Bytes} (fits : payload.length < 2 ^ 32) :
    LittleEndian.decode ((header payload).take 4) = payload.length := by
  rw [take_header_mod, Nat.mod_eq_of_lt fits]

theorem drop_header (payload : Bytes) :
    LittleEndian.decode (((header payload).drop 4).take 4) = (Crc32.checksum payload).toNat := by
  rw [header, List.drop_left' (LittleEndian.length_encode 4 payload.length),
    List.take_of_length_le (Nat.le_of_eq (LittleEndian.length_encode 4 _))]
  exact LittleEndian.decode_encode (Crc32.checksum payload).toNat_lt

/-- Where the parts of what is split off stand. -/
theorem parts_of_split? {log rest : Bytes} {f : Frame} (h : split? log = some (f, rest)) :
    f.payload ≠ [] ∧ f.payload.length = LittleEndian.decode (log.take 4) ∧
    f = ⟨LittleEndian.decode ((log.drop 4).take 4), (log.drop headerSize).take f.payload.length⟩ ∧
    rest = log.drop f.size := by
  unfold split? at h
  split at h
  · cases h
  · dsimp only at h
    split at h
    · cases h
    · next bad =>
      cases h
      rw [not_or] at bad
      have length : ((log.drop headerSize).take (LittleEndian.decode (log.take 4))).length =
          LittleEndian.decode (log.take 4) := List.length_take_of_le (Nat.not_lt.1 bad.2)
      refine ⟨fun none => ?_, length, by rw [length], by rw [size, length, List.drop_drop]⟩
      dsimp only at none
      rw [none] at length
      exact bad.1 length.symm

/-- What is split off a log: a header that announces the payload, the payload and
the rest. -/
theorem split?_eq_some {log rest : Bytes} {f : Frame} :
    split? log = some (f, rest) ↔
      ∃ header : Bytes, header.length = headerSize ∧ log = header ++ f.payload ++ rest ∧
        LittleEndian.decode (header.take 4) = f.payload.length ∧
        LittleEndian.decode ((header.drop 4).take 4) = f.sum ∧ f.payload ≠ [] := by
  constructor
  · intro h
    have lengths := length_of_split? h
    obtain ⟨full, length, parts, rfl⟩ := parts_of_split? h
    have payload : f.payload = (log.drop headerSize).take f.payload.length :=
      congrArg Frame.payload parts
    have body : f.payload ++ log.drop f.size = log.drop headerSize := calc
      _ = (log.drop headerSize).take f.payload.length ++
          (log.drop headerSize).drop f.payload.length := by rw [← payload, List.drop_drop, size]
      _ = log.drop headerSize := List.take_append_drop _ _
    refine ⟨log.take headerSize, List.length_take_of_le ?_, ?_, ?_, ?_, full⟩
    · rw [lengths, size]
      omega
    · rw [List.append_assoc, body, List.take_append_drop]
    · rw [List.take_take, length]
      rfl
    · rw [congrArg Frame.sum parts, List.drop_take, List.take_take]
      rfl
  · rintro ⟨header, eight, rfl, length, sum, full⟩
    have four : 4 ≤ header.length := by
      rw [eight]
      decide
    have four' : 4 ≤ (header.drop 4).length := by
      rw [List.length_drop, eight]
      decide
    have announced : LittleEndian.decode ((header ++ f.payload ++ rest).take 4) =
        f.payload.length := by
      rw [List.append_assoc, List.take_append_of_le_length four, length]
    have summed : LittleEndian.decode (((header ++ f.payload ++ rest).drop 4).take 4) = f.sum := by
      rw [List.append_assoc, List.drop_append_of_le_length four,
        List.take_append_of_le_length four', sum]
    have body : (header ++ f.payload ++ rest).drop headerSize = f.payload ++ rest := by
      rw [List.append_assoc]
      exact List.drop_left' eight
    have enough : ¬ (header ++ f.payload ++ rest).length < headerSize := by
      simp only [List.length_append, eight]
      omega
    have some_ : f.payload.length ≠ 0 := by simpa using full
    unfold split?
    rw [if_neg enough, announced, summed, body, if_neg]
    · simp
    · simp [some_]

/-- A payload is split off as it was written. -/
theorem split?_write {payload : Bytes} (full : payload ≠ []) (fits : payload.length < 2 ^ 32)
    (rest : Bytes) : split? (write payload ++ rest) = some (ofPayload payload, rest) :=
  split?_eq_some.2 ⟨header payload, length_header payload, rfl, take_header fits,
    drop_header payload, full⟩

/-- Nothing is split off a frame that has been cut off. -/
theorem split?_torn {payload torn : Bytes} (fits : payload.length < 2 ^ 32)
    (front : torn <+: write payload) (cut : torn.length < (write payload).length) :
    split? torn = none := by
  by_contra some_
  obtain ⟨⟨f, rest⟩, found⟩ := Option.ne_none_iff_exists'.1 some_
  obtain ⟨head, eight, same, length, -, -⟩ := split?_eq_some.1 found
  have whole : header payload <+: write payload := List.prefix_append _ _
  have head_ : head <+: write payload := by
    rw [same, List.append_assoc] at front
    exact (List.prefix_append _ _).trans front
  -- the header is the one that was written, and announces more than there is
  have written : head = header payload := by
    have := List.prefix_of_prefix_length_le head_ whole (Nat.le_of_eq (by simp [eight]))
    exact this.eq_of_length (by simp [eight])
  rw [written, take_header fits] at length
  rw [same, length_write] at cut
  simp only [List.length_append, eight, headerSize, ← length] at cut
  omega

end Frame

namespace Log

open LogRecord

theorem replayFrom_of_none {offset : Nat} {table : Table} {log : Bytes}
    (h : Frame.split? log = none) : replayFrom offset table log = .ok table := by
  unfold replayFrom
  split
  · rfl
  · next found =>
    rw [h] at found
    cases found

theorem replay_nil : replay [] = .ok Table.empty := replayFrom_of_none rfl

/-- What one frame does to a replay. -/
theorem replayFrom_of_some {offset : Nat} {table : Table} {log rest : Bytes} {frame : Frame}
    (h : Frame.split? log = some (frame, rest)) :
    replayFrom offset table log =
      if frame.intact then
        match LogRecord.decode frame.payload with
        | .ok record => replayFrom (offset + frame.size) (record.apply table) rest
        | .error e => .error (.corruptRecord (offset + frame.size) e.message)
      else replayFrom (offset + frame.size) table rest := by
  rw [replayFrom]
  split
  · next none =>
    rw [h] at none
    cases none
  · next found =>
    rw [h] at found
    cases found
    rfl

theorem write_append (records more : List LogRecord) :
    write (records ++ more) = write records ++ write more := by
  simp only [write, List.flatMap_append]

theorem write_singleton (r : LogRecord) : write [r] = Frame.write r.encode := by
  simp [write]

/-- Replaying the frame of a record applies the record, and goes on behind it. -/
theorem replayFrom_frame {r : LogRecord} (fits : r.Fits) (offset : Nat) (table : Table)
    (rest : Bytes) : replayFrom offset table (Frame.write r.encode ++ rest) =
      replayFrom (offset + (Frame.write r.encode).length) (r.apply table) rest := by
  have head := Frame.split?_write r.encode_ne_nil fits rest
  have size : (Frame.ofPayload r.encode).size = (Frame.write r.encode).length :=
    (Frame.length_write r.encode).symm
  rw [replayFrom_of_some head, if_pos (Frame.intact_ofPayload _), ← size]
  simp only [Frame.ofPayload, decode_encode fits]

/-- Replaying records applies them in their order, and goes on behind them. -/
theorem replayFrom_write {records : List LogRecord} (fits : ∀ r ∈ records, r.Fits)
    (offset : Nat) (table : Table) (rest : Bytes) :
    replayFrom offset table (write records ++ rest) =
      replayFrom (offset + (write records).length) (records.foldl apply table) rest := by
  induction records generalizing offset table with
  | nil => rfl
  | cons r records ih =>
    have step : write (r :: records) = Frame.write r.encode ++ write records := rfl
    rw [step, List.append_assoc, replayFrom_frame (fits r List.mem_cons_self),
      ih (fun x mem => fits x (List.mem_cons_of_mem r mem)), List.length_append, List.foldl_cons,
      Nat.add_assoc]

/-- Replaying a log of records gives the table that they stand for. -/
theorem replay_write {records : List LogRecord} (fits : ∀ r ∈ records, r.Fits) :
    replay (write records) = .ok (records.foldl apply Table.empty) := by
  have whole := replayFrom_write fits 0 Table.empty []
  rw [List.append_nil] at whole
  rw [replay, whole, replayFrom_of_none rfl]

/-! ## Cutting a log off -/

/-- What a cut leaves of a record: a front of its frame, which is not whole. -/
def Torn (r : LogRecord) (torn : Bytes) : Prop :=
  torn <+: Frame.write r.encode ∧ torn.length < (Frame.write r.encode).length

/-- A log cut off anywhere has the frames of some of its records, and then at most
the torn front of the next. -/
theorem take_write (records : List LogRecord) (cut : Nat) :
    ∃ whole left torn, records = whole ++ left ∧ (write records).take cut = write whole ++ torn ∧
      (torn = [] ∨ ∃ r more, left = r :: more ∧ Torn r torn) := by
  induction records generalizing cut with
  | nil => exact ⟨[], [], [], rfl, by simp [write], .inl rfl⟩
  | cons r records ih =>
    have step : write (r :: records) = Frame.write r.encode ++ write records := rfl
    by_cases inside : cut < (Frame.write r.encode).length
    · refine ⟨[], r :: records, (Frame.write r.encode).take cut, rfl, ?_, .inr ⟨r, records, rfl, ?_⟩⟩
      · rw [step, List.take_append_of_le_length (Nat.le_of_lt inside)]
        rfl
      · refine ⟨List.take_prefix _ _, ?_⟩
        rw [List.length_take]
        omega
    · obtain ⟨whole, left, torn, rfl, same, tail⟩ := ih (cut - (Frame.write r.encode).length)
      refine ⟨r :: whole, left, torn, rfl, ?_, tail⟩
      have step' : write (r :: whole) = Frame.write r.encode ++ write whole := rfl
      rw [step, List.take_append, List.take_of_length_le (Nat.not_lt.1 inside), same, step',
        List.append_assoc]

/-- The records whose frames lie in the first bytes of the log as a whole. -/
def within (cut : Nat) (records : List LogRecord) : List LogRecord :=
  (records.zipIdx.filter fun e => (write (records.take (e.2 + 1))).length ≤ cut).map Prod.fst

theorem within_subset (cut : Nat) (records : List LogRecord) : within cut records ⊆ records := by
  intro r mem
  obtain ⟨e, kept, rfl⟩ := List.mem_map.1 mem
  exact List.fst_mem_of_mem_zipIdx (List.mem_filter.1 kept).1

theorem length_write_take_le (records : List LogRecord) (n : Nat) :
    (write (records.take n)).length ≤ (write records).length := by
  conv_rhs => rw [← List.take_append_drop n records, write_append, List.length_append]
  exact Nat.le_add_right _ _

theorem within_append {whole left : List LogRecord} {cut : Nat}
    (inside : (write whole).length ≤ cut)
    (next : ∀ r more, left = r :: more → cut < (write (whole ++ [r])).length) :
    within cut (whole ++ left) = whole := by
  have first : whole.zipIdx.filter
      (fun e => (write ((whole ++ left).take (e.2 + 1))).length ≤ cut) = whole.zipIdx := by
    refine List.filter_eq_self.2 fun e mem => ?_
    have early := (List.mem_zipIdx mem).2.1
    rw [Nat.zero_add] at early
    rw [List.take_append_of_le_length early]
    exact decide_eq_true (Nat.le_trans (length_write_take_le whole _) inside)
  have last : (left.zipIdx whole.length).filter
      (fun e => (write ((whole ++ left).take (e.2 + 1))).length ≤ cut) = [] := by
    refine List.filter_eq_nil_iff.2 fun e mem => ?_
    have late := (List.mem_zipIdx mem).1
    obtain ⟨r, more, rfl⟩ := List.exists_cons_of_ne_nil (l := left) fun none => by simp [none] at mem
    -- what the log has up to the end of this frame is more than the first torn one
    have before := length_write_take_le ((whole ++ r :: more).take (e.2 + 1)) (whole.length + 1)
    have front : ((whole ++ r :: more).take (e.2 + 1)).take (whole.length + 1) = whole ++ [r] := by
      rw [List.take_take, Nat.min_eq_left (Nat.add_le_add_right late 1),
        List.take_length_add_append]
      rfl
    rw [front] at before
    have := next r more rfl
    simp only [decide_eq_true_eq]
    omega
  rw [within, List.zipIdx_append, List.filter_append, Nat.zero_add, first, last, List.append_nil,
    List.zipIdx_map_fst]

theorem split?_of_torn {r : LogRecord} {torn : Bytes} (fits : r.Fits) (h : Torn r torn) :
    Frame.split? torn = none := Frame.split?_torn fits h.1 h.2

/-- A log cut off anywhere has the frames of the records within the cut, and behind them nothing
that can be split off. -/
theorem take_write_eq {records : List LogRecord} (fits : ∀ r ∈ records, r.Fits) (cut : Nat) :
    ∃ torn, (write records).take cut = write (within cut records) ++ torn ∧
      Frame.split? torn = none := by
  obtain ⟨whole, left, torn, rfl, same, tail⟩ := take_write records cut
  have lengths := congrArg List.length same
  rw [List.length_take, write_append, List.length_append, List.length_append] at lengths
  have inside : (write whole).length ≤ cut := by omega
  have more (r : LogRecord) (rest : List LogRecord) :
      (write (r :: rest)).length = (Frame.write r.encode).length + (write rest).length :=
    List.length_append
  have size (r : LogRecord) : (write (whole ++ [r])).length =
      (write whole).length + (Frame.write r.encode).length := by
    rw [write_append, List.length_append, write_singleton]
  refine ⟨torn, ?_, ?_⟩
  · rw [same, within_append inside]
    rintro r rest rfl
    have full := Frame.length_write r.encode
    rw [more] at lengths
    rw [size]
    rcases tail with rfl | ⟨r', rest', own, cut_⟩
    · simp only [List.length_nil] at lengths
      omega
    · cases own
      have short := cut_.2
      omega
  · rcases tail with rfl | ⟨r, rest, rfl, cut_⟩
    · rfl
    · exact split?_of_torn (fits r (by simp)) cut_

end Log

end TrieStorage
