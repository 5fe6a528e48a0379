import TrieStorage.Proofs.Digest.Crc32
import TrieStorage.Proofs.Log.Replay

/-!
# Changed bytes

When one byte of a frame behind its length field has changed, the frame is still split off where
it ends, and its checksum is not that of its payload.  So replaying passes over it, and the
records in all other frames are applied as if it had never been there.
-/

namespace TrieStorage

namespace Frame

/-- A place in a frame, and the byte that has come to be there. -/
structure Flaw where
  place : Nat
  byte : UInt8
  deriving DecidableEq, Repr

namespace Flaw

def damage (flaw : Flaw) (frame : Bytes) : Bytes := frame.set flaw.place flaw.byte

/-- The byte is another than before, and belongs to the checksum or to the payload. -/
def Hits (flaw : Flaw) (payload : Bytes) : Prop :=
  4 ≤ flaw.place ∧ ∃ _ : flaw.place < (write payload).length, (write payload)[flaw.place] ≠ flaw.byte

instance (flaw : Flaw) (payload : Bytes) : Decidable (flaw.Hits payload) :=
  inferInstanceAs (Decidable (_ ∧ _))

end Flaw

variable {payload : Bytes} {flaw : Flaw}

/-- A changed checksum field holds another checksum. -/
theorem sum_set_ne {place : Nat} {byte : UInt8} (behind : 4 ≤ place)
    (inside : place < (header payload).length) (other : (header payload)[place] ≠ byte) :
    LittleEndian.decode ((((header payload).set place byte).drop 4).take 4) ≠
      (Crc32.checksum payload).toNat := by
  intro same
  rw [← drop_header] at same
  have field := LittleEndian.decode_inj (by simp) same
  have there := congrArg (fun bytes => bytes[place - 4]?) field
  have within : place - 4 < 4 := by
    rw [length_header, headerSize] at inside
    omega
  have back : 4 + (place - 4) = place := by omega
  simp only [List.getElem?_take_of_lt within, List.getElem?_drop, back] at there
  rw [List.getElem?_set_self inside, List.getElem?_eq_getElem inside, Option.some.injEq] at there
  exact other there.symm

/-- A damaged frame is split off like the one that was written, and does not pass for it. -/
theorem split?_damage (full : payload ≠ []) (fits : payload.length < 2 ^ 32)
    (hits : flaw.Hits payload) (rest : Bytes) :
    ∃ f, split? (flaw.damage (write payload) ++ rest) = some (f, rest) ∧ f.intact = false := by
  obtain ⟨behind, inside, other⟩ := hits
  have parts : write payload = header payload ++ payload := rfl
  have eight := length_header payload
  unfold Flaw.damage
  by_cases early : flaw.place < (header payload).length
  · -- the header announces the payload as before, with another checksum
    have changed : (header payload)[flaw.place] ≠ flaw.byte := by
      simpa only [parts, List.getElem_append_left early] using other
    refine ⟨⟨_, payload⟩, split?_eq_some.2 ⟨(header payload).set flaw.place flaw.byte, ?_, ?_, ?_,
      rfl, full⟩, ?_⟩
    · rw [List.length_set, eight]
    · rw [parts, List.set_append_left _ _ early]
    · rw [List.take_set_of_le behind, take_header fits]
    · exact decide_eq_false (sum_set_ne behind early changed).symm
  · -- the header is as before, and the payload has another checksum than it announces
    have late : (header payload).length ≤ flaw.place := Nat.not_lt.1 early
    have within : flaw.place - (header payload).length < payload.length := by
      simp only [parts, List.length_append] at inside
      omega
    have changed : payload[flaw.place - (header payload).length] ≠ flaw.byte := by
      simpa only [parts, List.getElem_append_right late] using other
    refine ⟨⟨_, payload.set (flaw.place - (header payload).length) flaw.byte⟩,
      split?_eq_some.2 ⟨header payload, eight, ?_, ?_, drop_header payload, ?_⟩, ?_⟩
    · rw [parts, List.set_append_right _ _ late]
    · rw [take_header fits, List.length_set]
    · simpa using full
    · refine decide_eq_false fun same => Crc32.checksum_set_ne within changed ?_
      exact UInt32.toNat.inj same

end Frame

namespace Log

open LogRecord

/-- The frame of a record, with its flaw if it has one. -/
def entryFrame (e : LogRecord × Option Frame.Flaw) : Bytes :=
  match e.2 with
  | none => Frame.write e.1.encode
  | some flaw => flaw.damage (Frame.write e.1.encode)

/-- A log in which the frames of some records have a flaw. -/
def writeDamaged (entries : List (LogRecord × Option Frame.Flaw)) : Bytes := entries.flatMap entryFrame

/-- The records whose frames have no flaw. -/
def spared (entries : List (LogRecord × Option Frame.Flaw)) : List LogRecord :=
  (entries.filter fun e => e.2.isNone).map Prod.fst

/-- Replaying passes over the frames with a flaw, and applies all other records. -/
theorem replayFrom_writeDamaged {entries : List (LogRecord × Option Frame.Flaw)}
    (fits : ∀ e ∈ entries, e.1.Fits)
    (hits : ∀ e ∈ entries, ∀ flaw ∈ e.2, flaw.Hits e.1.encode) (offset : Nat) (table : Table) :
    replayFrom offset table (writeDamaged entries) =
      .ok ((spared entries).foldl apply table) := by
  induction entries generalizing offset table with
  | nil => exact replayFrom_of_none rfl
  | cons e entries ih =>
    have later := ih (fun x mem => fits x (List.mem_cons_of_mem e mem))
      fun x mem => hits x (List.mem_cons_of_mem e mem)
    have own := fits e List.mem_cons_self
    have step : writeDamaged (e :: entries) = entryFrame e ++ writeDamaged entries := rfl
    rcases e with ⟨r, _ | flaw⟩
    · have kept : spared ((r, none) :: entries) = r :: spared entries := rfl
      rw [step, entryFrame, replayFrom_frame own, later, kept, List.foldl_cons]
    · have lost : spared ((r, some flaw) :: entries) = spared entries := rfl
      obtain ⟨f, split, broken⟩ := Frame.split?_damage r.encode_ne_nil own
        (hits _ List.mem_cons_self flaw rfl) (writeDamaged entries)
      rw [step, entryFrame, replayFrom_of_some split, broken, if_neg Bool.false_ne_true, later, lost]

end Log

end TrieStorage
