import TrieStorage.Proofs.Log.Replay

/-!
# Writing behind a torn record

A torn record ends a replay, but its bytes stay in the log.  Frames appended
behind it are read together with them: the header that the torn record began
takes the first appended bytes as its own, or as its payload.  `lost_behind_torn`
says that there is always a record which is lost that way.
-/

namespace TrieStorage

namespace Frame

/-- Where nothing can be split off, what is appended is split off together with
what is there, and loses its first bytes to it. -/
theorem eq_of_split?_append {torn more rest : Bytes} {f : Frame} (stuck : split? torn = none)
    (h : split? (torn ++ more) = some (f, rest)) :
    ∃ header swallowed : Bytes, header.length = headerSize ∧ swallowed ≠ [] ∧
      header ++ f.payload = torn ++ swallowed ∧ more = swallowed ++ rest := by
  obtain ⟨header, eight, same, length, sum, full⟩ := split?_eq_some.1 h
  have whole : ∀ behind, torn ≠ header ++ f.payload ++ behind := fun behind here => by
    rw [split?_eq_some.2 ⟨header, eight, here, length, sum, full⟩] at stuck
    cases stuck
  rcases List.append_eq_append_iff.1 same with ⟨swallowed, front, back⟩ | ⟨behind, here, -⟩
  · refine ⟨header, swallowed, eight, fun none => ?_, front, back⟩
    rw [none, List.append_nil] at front
    exact whole [] (by rw [List.append_nil, front])
  · exact absurd here (whole behind)

end Frame

namespace Log

open LogRecord

/-- Whether replaying a log comes to an end without a change: nothing can be split
off it, or nothing behind one damaged frame. -/
def inert (log : Bytes) : Bool :=
  match Frame.split? log with
  | none => true
  | some (frame, rest) => !frame.intact && (Frame.split? rest).isNone

theorem replayFrom_of_inert {log : Bytes} (h : inert log = true) (offset : Nat) (table : Table) :
    replayFrom offset table log = .ok table := by
  unfold inert at h
  cases split : Frame.split? log with
  | none => exact replayFrom_of_none split
  | some found =>
    obtain ⟨frame, rest⟩ := found
    simp only [split, Bool.and_eq_true, Bool.not_eq_true', Option.isNone_iff_eq_none] at h
    obtain ⟨damaged, stuck⟩ := h
    rw [replayFrom_of_some split, damaged, if_neg Bool.false_ne_true, replayFrom_of_none stuck]

/-! ## A record that is lost -/

/-- A record that changes what a table has under the empty key. -/
def probe (table : Table) : LogRecord :=
  if table.get? [] = some [] then .remove [] else .put [] []

theorem probe_cases (table : Table) : probe table = .put [] [] ∨ probe table = .remove [] := by
  unfold probe
  split
  · exact .inr rfl
  · exact .inl rfl

@[simp] theorem key_probe (table : Table) : (probe table).key = [] := by
  rcases probe_cases table with h | h <;> rw [h] <;> rfl

theorem value?_probe (table : Table) : (probe table).value? ≠ table.get? [] := by
  unfold probe
  split
  · next put =>
    rw [put]
    exact nofun
  · next other => exact Ne.symm other

theorem fits_probe (table : Table) : (probe table).Fits := by
  rcases probe_cases table with h | h <;> rw [h] <;> decide

/-- The records under the empty key differ in what they leave there. -/
theorem eq_probe {table : Table} {r : LogRecord} (own : r.key = [])
    (value : r.value? = (probe table).value?) : r = probe table := by
  rcases probe_cases table with h | h <;> rw [h] at value ⊢ <;> cases r <;>
    simp_all [LogRecord.key, value?]

/-- A probe has lost some of its bytes: nothing is left of it. -/
theorem inert_drop_probe (table : Table) {lost : Nat} (some_ : 0 < lost) :
    inert ((Frame.write (probe table).encode).drop lost) = true := by
  have put : ∀ n < 28, inert ((Frame.write (LogRecord.put [] []).encode).drop (n + 1)) = true := by
    decide +kernel
  have remove : ∀ n < 20, inert ((Frame.write (LogRecord.remove []).encode).drop (n + 1)) = true := by
    decide +kernel
  have nothing : inert [] = true := rfl
  obtain ⟨n, rfl⟩ := Nat.exists_eq_succ_of_ne_zero (Nat.pos_iff_ne_zero.1 some_)
  rcases probe_cases table with h | h <;> rw [h]
  · by_cases inside : n < 28
    · exact put n inside
    · rw [List.drop_of_length_le, nothing]
      exact Nat.le_succ_of_le (Nat.not_lt.1 inside)
  · by_cases inside : n < 20
    · exact remove n inside
    · rw [List.drop_of_length_le, nothing]
      exact Nat.le_succ_of_le (Nat.not_lt.1 inside)

/-- With the front of its header gone, the frame of a probe does not show it. -/
theorem not_prefix_drop_probe (table : Table) {lost : Nat} (some_ : 0 < lost) (few : lost < 8) :
    ¬ (probe table).encode <+: (Frame.write (probe table).encode).drop lost := by
  have put : ∀ n < 7, ¬ (LogRecord.put [] []).encode <+:
      (Frame.write (LogRecord.put [] []).encode).drop (n + 1) := by decide +kernel
  have remove : ∀ n < 7, ¬ (LogRecord.remove []).encode <+:
      (Frame.write (LogRecord.remove []).encode).drop (n + 1) := by decide +kernel
  obtain ⟨n, rfl⟩ := Nat.exists_eq_succ_of_ne_zero (Nat.pos_iff_ne_zero.1 some_)
  rcases probe_cases table with h | h <;> rw [h]
  · exact put n (by omega)
  · exact remove n (by omega)

/-- The byte that the frame of a probe starts with is none of the probe's own. -/
theorem write_probe (table : Table) :
    ∃ first rest, Frame.write (probe table).encode = first :: rest ∧ first ∉ (probe table).encode := by
  have put : Frame.write (LogRecord.put [] []).encode =
      20 :: (Frame.write (LogRecord.put [] []).encode).tail := by decide +kernel
  have remove : Frame.write (LogRecord.remove []).encode =
      12 :: (Frame.write (LogRecord.remove []).encode).tail := by decide +kernel
  rcases probe_cases table with h | h <;> rw [h]
  · exact ⟨20, _, put, by decide⟩
  · exact ⟨12, _, remove, by decide⟩

/-- The stored form of a record starts with that of no other record. -/
theorem encode_prefixFree {x r : LogRecord} (fits : x.Fits) (fits' : r.Fits)
    (front : x.encode <+: r.encode) : x = r := by
  obtain ⟨rest, same⟩ := front
  have first := read_encode fits rest
  have second := read_encode fits' []
  rw [List.append_nil, ← same, first] at second
  exact congrArg Prod.fst (Except.ok.inj second)

/-- Behind the torn payload of a record no probe is read in its place. -/
theorem not_prefix_torn_payload {r : LogRecord} {torn missing swallowed rest : Bytes} (table : Table)
    (fits : r.Fits) (whole : torn ++ missing = r.encode) (cut : missing ≠ [])
    (apart : Frame.write (probe table).encode = swallowed ++ rest) (some_ : swallowed ≠ []) :
    ¬ (probe table).encode <+: torn ++ swallowed := by
  intro front
  by_cases inside : (probe table).encode.length ≤ torn.length
  · have own : (probe table).encode <+: r.encode :=
      (List.prefix_of_prefix_length_le front (List.prefix_append _ _) inside).trans ⟨missing, whole⟩
    rw [encode_prefixFree (fits_probe table) fits own, ← whole, List.length_append] at inside
    exact cut (List.length_eq_zero_iff.1 (by omega))
  · -- it would reach into the frame, whose first byte it does not have
    obtain ⟨first, more, frame, foreign⟩ := write_probe table
    obtain ⟨first', swallowed', rfl⟩ := List.exists_cons_of_ne_nil some_
    obtain rfl : first = first' := by
      rw [frame, List.cons_append] at apart
      exact (List.cons.inj apart).1
    have reach : torn ++ [first] <+: torn ++ first :: swallowed' := ⟨swallowed', by simp⟩
    have within : torn ++ [first] <+: (probe table).encode := by
      refine List.prefix_of_prefix_length_le reach front ?_
      simp only [List.length_append, List.length_singleton]
      omega
    exact foreign (within.mem (by simp))

/-- A frame that a torn record has begun does not have the probe for its payload. -/
theorem not_prefix_torn {r : LogRecord} {torn header payload swallowed rest : Bytes}
    (table : Table) (fits : r.Fits) (cut : Torn r torn) (full : torn ≠ [])
    (eight : header.length = Frame.headerSize) (same : header ++ payload = torn ++ swallowed)
    (apart : Frame.write (probe table).encode = swallowed ++ rest) (some_ : swallowed ≠ []) :
    ¬ (probe table).encode <+: payload := by
  by_cases headed : header.length ≤ torn.length
  · -- the header was whole, and `body` is what there was of the payload
    obtain ⟨body, rfl⟩ : header <+: torn :=
      List.prefix_of_prefix_length_le ⟨payload, same⟩ (List.prefix_append _ _) headed
    obtain ⟨missing, whole⟩ := cut.1
    have body_ : body ++ missing = r.encode := by
      rw [Frame.write, List.append_assoc] at whole
      refine (List.append_inj whole ?_).2
      simp only [eight, List.length_append, LittleEndian.length_encode, Frame.headerSize]
    have cut' : missing ≠ [] := fun none => by
      have short := cut.2
      rw [← whole, none, List.append_nil] at short
      exact Nat.lt_irrefl _ short
    rw [List.append_assoc] at same
    rw [List.append_cancel_left same]
    exact not_prefix_torn_payload table fits body_ cut' apart some_
  · -- the header was cut off, and `early` is what it takes of the frame
    obtain ⟨early, rfl⟩ : torn <+: header :=
      List.prefix_of_prefix_length_le (List.prefix_append _ _) ⟨payload, same⟩ (Nat.le_of_not_le headed)
    rw [List.append_assoc] at same
    obtain rfl : early ++ payload = swallowed := List.append_cancel_left same
    have behind : (Frame.write (probe table).encode).drop early.length = payload ++ rest := by
      rw [apart, List.append_assoc]
      exact List.drop_left' rfl
    have torn_ : 0 < torn.length := List.length_pos_iff.2 full
    simp only [List.length_append, Frame.headerSize] at eight headed
    have lost : 0 < early.length := by omega
    intro front
    refine not_prefix_drop_probe table lost (by omega) ?_
    rw [behind]
    exact front.trans (List.prefix_append _ _)

/-- Behind a torn record a probe is lost: the log is not replayed to a table that
shows what the probe changed. -/
theorem lost_behind_torn {r : LogRecord} {torn : Bytes} (fits : r.Fits) (cut : Torn r torn)
    (full : torn ≠ []) (offset : Nat) {table result : Table}
    (h : replayFrom offset table (torn ++ Frame.write (probe table).encode) = .ok result) :
    result.get? [] ≠ ((probe table).apply table).get? [] := by
  rw [get?_apply, if_pos (key_probe table)]
  have unchanged : table.get? [] ≠ (probe table).value? := (value?_probe table).symm
  cases found : Frame.split? (torn ++ Frame.write (probe table).encode) with
  | none =>
    rw [replayFrom_of_none found] at h
    cases h
    exact unchanged
  | some head =>
    obtain ⟨frame, rest⟩ := head
    obtain ⟨header, swallowed, eight, some_, same, apart⟩ :=
      Frame.eq_of_split?_append (split?_of_torn fits cut) found
    have tail : inert rest = true := by
      have lost := inert_drop_probe table (List.length_pos_iff.2 some_)
      rw [apart, List.drop_left' rfl] at lost
      exact lost
    rw [replayFrom_of_some found] at h
    split at h
    · cases read : LogRecord.decode frame.payload with
      | error e =>
        rw [read] at h
        cases h
      | ok x =>
        simp only [read, replayFrom_of_inert tail, Except.ok.injEq] at h
        subst h
        rw [get?_apply]
        split
        · next own =>
          intro value
          rw [eq_probe own value] at read
          exact not_prefix_torn table fits cut full eight same apart some_ (prefix_of_decode read)
        · exact unchanged
    · rw [replayFrom_of_inert tail] at h
      cases h
      exact unchanged

end Log

end TrieStorage
