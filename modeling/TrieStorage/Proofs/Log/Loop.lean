import Mathlib.Data.List.Induction
import Mathlib.Logic.Relation
import TrieStorage.Log.Loop
import TrieStorage.Proofs.Log.Frames

/-!
# Replaying any file

At every head of the loop the reader stands where the loop has counted to, within the file.  So as
long as the length of a file leaves room above it in 64 bits, no count runs over and no read meets
the end of the file, whatever bytes there are.  Each turn either passes over a frame or ends the
loop, which makes the loop end, with the answer of `replay`.

* `Head.InStep.turn_cases` says once what a turn can do.
* `replay_total` says how a replay ends, and what it answers.
-/

namespace TrieStorage

namespace Log

open LogRecord

/-- Whether the reader stands where the loop has counted to, within the file. -/
structure Head.InStep (file : Bytes) (head : Head) : Prop where
  counted : head.position = head.offset.toNat
  within : head.position ≤ file.length

section

variable {file : Bytes} (small : file.length < 2 ^ 63)

/-! ## Counting -/

theorem sum_of_lt {a b : UInt64} (fits : a.toNat + b.toNat < 2 ^ 64) :
    ∃ c, sum a b = .ok c ∧ c.toNat = a.toNat + b.toNat :=
  ⟨a + b, if_pos fits, by rw [UInt64.toNat_add, Nat.mod_eq_of_lt fits]⟩

theorem toNat_headerSize : (UInt64.ofNat Frame.headerSize).toNat = Frame.headerSize := rfl

include small

theorem ofNat_length_lt_iff {count : UInt64} :
    UInt64.ofNat file.length < count ↔ file.length < count.toNat := by
  have fits : file.length < 2 ^ 64 := by omega
  rw [UInt64.lt_iff_toNat_lt, UInt64.toNat_ofNat_of_lt' fits]

/-- A header behind what has been counted is still counted. -/
theorem sum_header {offset : UInt64} (within : offset.toNat ≤ file.length) :
    ∃ header, sum offset (UInt64.ofNat Frame.headerSize) = .ok header ∧
      header.toNat = offset.toNat + Frame.headerSize := by
  refine sum_of_lt ?_
  rw [toNat_headerSize, Frame.headerSize]
  omega

/-- So is the payload behind it, in both orders in which the loop adds them up. -/
theorem sum_payload {offset : UInt64} (within : offset.toNat ≤ file.length) (length : UInt32) :
    (∀ header : UInt64, header.toNat = offset.toNat + Frame.headerSize →
      ∃ behind, sum header length.toUInt64 = .ok behind ∧
        behind.toNat = offset.toNat + Frame.headerSize + length.toNat) ∧
    ∃ frame behind, sum (UInt64.ofNat Frame.headerSize) length.toUInt64 = .ok frame ∧
      sum offset frame = .ok behind ∧
      behind.toNat = offset.toNat + Frame.headerSize + length.toNat := by
  have bound := length.toNat_lt
  constructor
  · intro header value
    rw [← value, ← UInt32.toNat_toUInt64]
    refine sum_of_lt ?_
    rw [value, UInt32.toNat_toUInt64, Frame.headerSize]
    omega
  · have fits : (UInt64.ofNat Frame.headerSize).toNat + length.toUInt64.toNat < 2 ^ 64 := by
      rw [toNat_headerSize, UInt32.toNat_toUInt64, Frame.headerSize]
      omega
    obtain ⟨frame, added, value⟩ := sum_of_lt fits
    rw [toNat_headerSize, UInt32.toNat_toUInt64] at value
    have fits' : offset.toNat + frame.toNat < 2 ^ 64 := by
      rw [value, Frame.headerSize]
      omega
    obtain ⟨behind, added', value'⟩ := sum_of_lt fits'
    exact ⟨frame, behind, added, added', by rw [value', value, Nat.add_assoc]⟩

/-! ## Reading -/

omit small in
theorem readExact_of_le {position count : Nat} (cutOff : Mishap)
    (enough : position + count ≤ file.length) :
    readExact file position count cutOff =
      .ok ((file.drop position).take count, position + count) := if_pos enough

variable {head : Head}

/-- The end of a log shows before a header is read. -/
theorem readHeader_of_lt (h : head.InStep file)
    (short : file.length < head.position + Frame.headerSize) :
    readHeader file head = .error .exhausted := by
  obtain ⟨header, added, value⟩ := sum_header small (h.counted ▸ h.within)
  have beyond : UInt64.ofNat file.length < header := by
    rw [ofNat_length_lt_iff small, value, ← h.counted]
    exact short
  simp only [readHeader, added, bind, Except.bind, if_pos beyond]
  rfl

/-- A header for which there is room is read as a whole. -/
theorem readHeader_of_le (h : head.InStep file)
    (enough : head.position + Frame.headerSize ≤ file.length) :
    readHeader file head = .ok (UInt32.ofNat (LittleEndian.decode ((file.drop head.position).take 4)),
      LittleEndian.decode (((file.drop head.position).drop 4).take 4),
      head.position + Frame.headerSize) := by
  obtain ⟨header, added, value⟩ := sum_header small (h.counted ▸ h.within)
  have room : ¬ UInt64.ofNat file.length < header := by
    rw [ofNat_length_lt_iff small, value, ← h.counted]
    exact Nat.not_lt.2 enough
  simp only [readHeader, added, bind, Except.bind, if_neg room, readExact_of_le _ enough,
    List.take_take, List.drop_take]
  rfl

variable {offset : UInt64} {length : UInt32}

/-- A header that announces nothing, or too much, is seen through before a payload is read. -/
theorem readPayload_of_torn (within : offset.toNat ≤ file.length)
    (torn : length = 0 ∨ file.length < offset.toNat + Frame.headerSize + length.toNat)
    (position : Nat) : readPayload file offset length position = .error .torn := by
  by_cases nothing : length = 0
  · rw [readPayload, if_pos nothing]
    rfl
  · obtain ⟨header, added, value⟩ := sum_header small within
    obtain ⟨behind, added', value'⟩ := (sum_payload small within length).1 header value
    have beyond : UInt64.ofNat file.length < behind := by
      rw [ofNat_length_lt_iff small, value']
      exact torn.resolve_left nothing
    simp only [readPayload, if_neg nothing, added, added', bind, Except.bind, if_pos beyond]
    rfl

/-- A payload that is there is read as a whole, and counted with its header. -/
theorem readPayload_of_le (within : offset.toNat ≤ file.length) (some_ : length ≠ 0)
    (enough : offset.toNat + Frame.headerSize + length.toNat ≤ file.length) :
    ∃ behind, behind.toNat = offset.toNat + Frame.headerSize + length.toNat ∧
      readPayload file offset length (offset.toNat + Frame.headerSize) =
        .ok ((file.drop (offset.toNat + Frame.headerSize)).take length.toNat, behind.toNat,
          behind) := by
  obtain ⟨header, added, value⟩ := sum_header small within
  obtain ⟨first, frame, behind, added₁, added₂, value₂⟩ := sum_payload small within length
  obtain ⟨guard, added₀, value₀⟩ := first header value
  have room : ¬ UInt64.ofNat file.length < guard := by
    rw [ofNat_length_lt_iff small, value₀]
    exact Nat.not_lt.2 enough
  refine ⟨behind, value₂, ?_⟩
  simp only [readPayload, if_neg some_, added, added₀, bind, Except.bind, if_neg room,
    readExact_of_le _ enough, added₁, added₂, value₂]
  rfl

/-! ## Turns -/

/-- What a replay comes to that goes on from a head. -/
def Head.verdict (file : Bytes) (head : Head) : Except StoreError Table :=
  replayFrom head.offset.toNat head.table (file.drop head.position)

omit small in
theorem toNat_announced {log : Bytes} (enough : Frame.headerSize ≤ log.length) :
    (UInt32.ofNat (LittleEndian.decode (log.take 4))).toNat = LittleEndian.decode (log.take 4) := by
  have bound := LittleEndian.decode_lt (log.take 4)
  have four : (log.take 4).length = 4 := List.length_take_of_le (Nat.le_trans (by decide) enough)
  rw [four] at bound
  exact UInt32.toNat_ofNat_of_lt' bound

/-- Where no frame begins, the loop ends with the table that it has. -/
theorem turn_of_broken (h : head.InStep file) (broken : Frame.Broken (file.drop head.position)) :
    turn file head = .error .exhausted ∨ turn file head = .error .torn := by
  have ahead : (file.drop head.position).length = file.length - head.position := List.length_drop
  have within := h.within
  by_cases short : file.length < head.position + Frame.headerSize
  · left
    rw [turn, readHeader_of_lt small h short]
    rfl
  · right
    have enough : Frame.headerSize ≤ (file.drop head.position).length := by omega
    have torn : UInt32.ofNat (LittleEndian.decode ((file.drop head.position).take 4)) = 0 ∨
        file.length < head.offset.toNat + Frame.headerSize +
          (UInt32.ofNat (LittleEndian.decode ((file.drop head.position).take 4))).toNat := by
      rw [toNat_announced enough, ← h.counted]
      rcases broken with less | nothing | much
      · omega
      · exact .inl (by rw [nothing]; rfl)
      · exact .inr (by omega)
    simp only [turn, readHeader_of_le small h (Nat.not_lt.1 short),
      readPayload_of_torn small (h.counted ▸ within) torn, bind, Except.bind]

/-- Where a frame begins, the loop enters it and goes on behind it. -/
theorem turn_of_split? (h : head.InStep file) {f : Frame} {rest : Bytes}
    (found : Frame.split? (file.drop head.position) = some (f, rest)) :
    ∃ behind, behind.toNat = head.offset.toNat + f.size ∧ behind.toNat ≤ file.length ∧
      file.drop behind.toNat = rest ∧
      turn file head =
        (enter head.table behind f).map fun table => ⟨behind.toNat, behind, table⟩ := by
  have sizes := Frame.length_of_split? found
  obtain ⟨full, announced, parts, rfl⟩ := Frame.parts_of_split? found
  have ahead : (file.drop head.position).length = file.length - head.position := List.length_drop
  have within := h.within
  have counted := h.counted
  have size : f.size = Frame.headerSize + f.payload.length := rfl
  have some_ : f.payload.length ≠ 0 := by simpa using full
  have header : head.position + Frame.headerSize ≤ file.length := by omega
  have length : (UInt32.ofNat (LittleEndian.decode ((file.drop head.position).take 4))).toNat =
      f.payload.length := by rw [toNat_announced (by omega), announced]
  have nonzero : UInt32.ofNat (LittleEndian.decode ((file.drop head.position).take 4)) ≠ 0 := by
    intro zero
    rw [zero] at length
    exact some_ length.symm
  obtain ⟨behind, value, read⟩ :=
    readPayload_of_le small (counted ▸ within) nonzero (by omega)
  rw [length] at value read
  have total : behind.toNat = head.offset.toNat + f.size := by omega
  refine ⟨behind, total, by omega, ?_, ?_⟩
  · rw [List.drop_drop, total, counted]
  · rw [← counted, ← List.drop_drop] at read
    simp only [turn, readHeader_of_le small h header, read, ← parts, bind, Except.bind, Except.map]
    rfl

/-- What a turn does: it comes to a head that is in step and further on, or it ends the loop in one
of the ways that a log can end.  Either way the verdict stays what it was. -/
theorem Head.InStep.turn_cases (h : head.InStep file) :
    (∃ next, turn file head = .ok next ∧ next.InStep file ∧ head.position < next.position ∧
      next.verdict file = head.verdict file) ∨
    ∃ ending, turn file head = .error ending ∧ (∀ what, ending ≠ .mishap what) ∧
      ending.answer? head.table = some (head.verdict file) := by
  cases found : Frame.split? (file.drop head.position) with
  | none =>
    right
    rw [verdict, replayFrom_of_none found]
    rcases turn_of_broken small h (Frame.split?_eq_none.1 found) with ended | ended
    · exact ⟨.exhausted, ended, by simp, rfl⟩
    · exact ⟨.torn, ended, by simp, rfl⟩
  | some head' =>
    obtain ⟨f, rest⟩ := head'
    obtain ⟨behind, total, within, rfl, turned⟩ := turn_of_split? small h found
    have further : head.position < behind.toNat := by
      rw [total, h.counted, Frame.size, Frame.headerSize]
      omega
    rw [verdict, replayFrom_of_some found, ← total]
    unfold enter at turned
    by_cases intact : f.intact = true
    · rw [if_pos intact] at turned ⊢
      cases decoded : LogRecord.decode f.payload with
      | ok r =>
        rw [decoded] at turned
        exact .inl ⟨_, turned, ⟨rfl, within⟩, further, rfl⟩
      | error e =>
        rw [decoded] at turned
        exact .inr ⟨_, turned, by simp, rfl⟩
    · rw [if_neg intact] at turned ⊢
      exact .inl ⟨_, turned, ⟨rfl, within⟩, further, rfl⟩

end

-- a reader that is out of step does meet the end of the file
example : turn (List.replicate 8 1) ⟨1, 0, Table.empty⟩ = .error (.mishap .headerCutOff) := by
  decide +kernel

/-! ## Whole replays -/

/-- Whether the loop over a file comes to a head. -/
def Reached (file : Bytes) : Head → Prop :=
  Relation.ReflTransGen (fun head next => turn file head = .ok next) Head.start

section

variable {file : Bytes} (small : file.length < 2 ^ 63)

include small

/-- Every head is in step, and its verdict is that of the replay. -/
theorem inStep_of_reached {head : Head} (reached : Reached file head) :
    head.InStep file ∧ head.verdict file = replay file := by
  induction reached with
  | refl => exact ⟨⟨rfl, Nat.zero_le _⟩, rfl⟩
  | tail _ turned ih =>
    obtain ⟨h, verdict⟩ := ih
    rcases h.turn_cases small with ⟨next, turned', inStep, -, kept⟩ | ⟨ending, ended, -⟩
    · cases turned.symm.trans turned'
      exact ⟨inStep, kept.trans verdict⟩
    · cases turned.symm.trans ended

/-- The loop ends, since each turn that does not end it moves the reader on. -/
theorem exists_ending (head : Head) (reached : Reached file head) :
    ∃ last ending, Reached file last ∧ turn file last = .error ending := by
  have h := (inStep_of_reached small reached).1
  rcases h.turn_cases small with ⟨next, turned, inStep, further, -⟩ | ⟨ending, ended, -⟩
  · have within := inStep.within
    exact exists_ending next (reached.tail turned)
  · exact ⟨head, ending, reached, ended⟩
termination_by file.length - head.position

omit small in
theorem enter_of_readable {f : Frame} (readable : ∀ e, ¬ f.Corrupt e) (table : Table)
    (offset : UInt64) : ∃ table', enter table offset f = .ok table' := by
  unfold enter
  by_cases intact : f.intact = true
  · rw [if_pos intact]
    cases decoded : LogRecord.decode f.payload with
    | ok r => exact ⟨_, rfl⟩
    | error e => exact absurd ⟨intact, decoded⟩ (readable e)
  · exact ⟨table, if_neg intact⟩

/-- The loop comes to every place up to which no frame is corrupt. -/
theorem Framed.exists_reached {frames : List Frame} {tail : Bytes} (h : Framed file frames tail)
    {before after : List Frame} (place : frames = before ++ after)
    (readable : ∀ g ∈ before, ∀ e, ¬ g.Corrupt e) :
    ∃ head, Reached file head ∧ head.position = (bytes before).length := by
  induction before using List.reverseRecOn generalizing after with
  | nil => exact ⟨Head.start, .refl, rfl⟩
  | append_singleton before f ih =>
    rw [List.append_assoc, List.singleton_append] at place
    obtain ⟨head, reached, position⟩ := ih place fun g mem => readable g (List.mem_append_left _ mem)
    have inStep := (inStep_of_reached small reached).1
    obtain ⟨apart, found⟩ := h.split?_drop place
    have ahead : file.drop head.position = f.bytes ++ (bytes after ++ tail) := by
      rw [apart]
      exact List.drop_left' position.symm
    rw [← ahead] at found
    obtain ⟨behind, total, -, -, turned⟩ := turn_of_split? small inStep found
    obtain ⟨table, entered⟩ := enter_of_readable (readable f (by simp)) head.table behind
    rw [entered] at turned
    refine ⟨⟨behind.toNat, behind, table⟩, reached.tail turned, ?_⟩
    rw [length_bytes_concat, ← position, total, inStep.counted]

end

/-- Whatever a file holds, replaying it comes to an end.  At every head of the loop the reader stands
where the loop has counted to, within the file, and what is still to be replayed there comes to the
same as the whole; no turn counts beyond 64 bits or meets the end of the file in reading; and the
turn that ends the loop gives the answer of `replay`.  The file is made of frames up to a header that
is cut off, announces nothing or announces too much, and the loop comes to each frame that no corrupt
one precedes.  The replay fails exactly if one of these frames is corrupt, with the offset behind the
first such frame, and otherwise gives the table of the records in the frames with the right
checksums. -/
theorem replay_total {file : Bytes} (small : file.length < 2 ^ 63) :
    (∃ last ending, Reached file last ∧ turn file last = .error ending) ∧
    (∀ head, Reached file head →
      head.position = head.offset.toNat ∧ head.position ≤ file.length ∧
      replayFrom head.offset.toNat head.table (file.drop head.position) = replay file ∧
      ∀ ending, turn file head = .error ending →
        (∀ what, ending ≠ .mishap what) ∧ ending.answer? head.table = some (replay file)) ∧
    (∃ frames tail, Framed file frames tail) ∧
    ∀ frames tail, Framed file frames tail →
      ((∃ offset reason, replay file = .error (.corruptRecord offset reason)) ↔
        ∃ f ∈ frames, ∃ e, f.Corrupt e) ∧
      (∀ before f after, frames = before ++ f :: after → (∀ g ∈ before, ∀ e, ¬ g.Corrupt e) →
        (∃ head, Reached file head ∧ head.position = (bytes before).length) ∧
        ∀ e, f.Corrupt e →
          replay file = .error (.corruptRecord (bytes (before ++ [f])).length e.message)) ∧
      ((∀ f ∈ frames, ∀ e, ¬ f.Corrupt e) → ∃ records, Holds frames records ∧
        replay file = .ok (records.foldl apply Table.empty)) := by
  refine ⟨exists_ending small Head.start .refl, fun head reached => ?_, exists_framed file,
    fun frames tail framed => ⟨framed.replay_fails_iff, ?_, framed.replay_readable⟩⟩
  · obtain ⟨h, verdict⟩ := inStep_of_reached small reached
    refine ⟨h.counted, h.within, verdict, fun ending ended => ?_⟩
    rcases h.turn_cases small with ⟨next, turned, -⟩ | ⟨ending', ended', usual, answer⟩
    · cases ended.symm.trans turned
    · cases ended.symm.trans ended'
      exact ⟨usual, answer.trans (congrArg some verdict)⟩
  · intro before f after place readable
    refine ⟨framed.exists_reached small place readable, fun e corrupt => ?_⟩
    exact framed.replay_corrupt place corrupt readable

/-! ## A file with everything in it -/

/-- A frame of a record, one with a wrong checksum, one whose payload is no record, and another
frame of a record. -/
def mixedFrames : List Frame :=
  [.ofPayload (LogRecord.put [0x61] [0x31]).encode, ⟨0, [7]⟩, .ofPayload [2, 0, 0, 0],
    .ofPayload (LogRecord.remove [0x61]).encode]

/-- Such frames, and behind them a header that announces a hundred bytes of which there are two. -/
def mixedFile : Bytes := bytes mixedFrames ++ [100, 0, 0, 0, 0, 0, 0, 0, 1, 2]

/-- Replaying it fails behind the third frame. -/
theorem mixedFile_replay :
    mixedFile.length < 2 ^ 63 ∧ (∃ tail, Framed mixedFile mixedFrames tail) ∧
    (∃ last ending, Reached mixedFile last ∧ turn mixedFile last = .error ending ∧
      ending.answer? last.table = some (replay mixedFile)) ∧
    (∃ head, Reached mixedFile head ∧ head.position = 39) ∧
    replay mixedFile = .error (.corruptRecord 51 (LayoutError.unknownTag 2 2).message) := by
  have small : mixedFile.length < 2 ^ 63 := by decide +kernel
  have framed : Framed mixedFile mixedFrames [100, 0, 0, 0, 0, 0, 0, 0, 1, 2] :=
    ⟨rfl, by decide +kernel, by decide +kernel⟩
  have corrupt : (Frame.ofPayload [2, 0, 0, 0]).Corrupt (.unknownTag 2 2) := ⟨by simp, rfl⟩
  have readable : ∀ g ∈ mixedFrames.take 2, ∀ e, ¬ g.Corrupt e := by
    intro g mem e bad
    rcases List.mem_cons.1 mem with rfl | mem
    · exact nomatch (decode_encode (r := .put [0x61] [0x31]) (by decide)).symm.trans bad.2
    · cases List.mem_singleton.1 mem
      exact absurd bad.1 (by decide +kernel)
  obtain ⟨⟨last, ending, reached, ended⟩, along, -, answers⟩ := replay_total small
  obtain ⟨comes, failed⟩ := (answers _ _ framed).2.1 _ _ _ rfl readable
  exact ⟨small, ⟨_, framed⟩, ⟨last, ending, reached, ended,
    ((along last reached).2.2.2 ending ended).2⟩, comes, failed _ corrupt⟩

end Log

end TrieStorage
