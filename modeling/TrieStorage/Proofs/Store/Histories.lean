import TrieStorage.Proofs.Store.Logged

/-!
# Stores that share a log

Any number of stores may be opened on one directory, changed, closed and dropped,
in any order.  The log of the directory always holds the changes that succeeded,
in their order, and nothing else; so a store that is opened now has exactly what
they leave, whichever stores they were made through.
-/

namespace TrieStorage

/-- A directory's disk and the stores opened on the directory. -/
structure Sessions where
  disk : Disk
  /-- The stores in the order in which they were opened; nothing stands for a store
  that has been dropped. -/
  stores : List (Option LoggedStore) := []
  /-- The changes that succeeded, in order. -/
  acknowledged : List LogRecord := []

namespace Sessions

open LoggedStore

/-- Something done to a directory; stores are named by their place in the order of
opening. -/
inductive Use where
  | openStore
  | change (n : Nat) (record : LogRecord)
  | close (n : Nat)
  /-- The store is let go of without being closed. -/
  | drop (n : Nat)
  deriving DecidableEq, Repr

/-- The changes that were acknowledged, after one more change with an answer. -/
def note (acknowledged : List LogRecord) (record : LogRecord) :
    Except StoreError Unit → List LogRecord
  | .ok () => acknowledged ++ [record]
  | .error _ => acknowledged

def use (dir : String) (st : Sessions) : Use → Sessions
  | .openStore =>
    match openAt st.disk dir with
    | (.ok s, disk) => { st with disk, stores := st.stores ++ [some s] }
    | (.error _, disk) => { st with disk }
  | .change n record =>
    match st.stores[n]? with
    | some (some s) =>
      let (answer, s, disk) := s.change st.disk record
      { disk, stores := st.stores.set n (some s),
        acknowledged := note st.acknowledged record answer }
    | _ => st
  | .close n =>
    match st.stores[n]? with
    | some (some s) => { st with stores := st.stores.set n (some s.close.2) }
    | _ => st
  | .drop n => { st with stores := st.stores.set n none }

def run (dir : String) (st : Sessions) (uses : List Use) : Sessions := uses.foldl (use dir) st

/-! ## What every use preserves -/

/-- The log holds what has been acknowledged, and every store that is not closed
writes to it. -/
structure Logging (dir : String) (id : FileId) (st : Sessions) : Prop where
  log : HasLog st.disk dir id (Log.write st.acknowledged)
  stores : ∀ s, some s ∈ st.stores → s.log = none ∨ s.log = some id
  fits : ∀ r ∈ st.acknowledged, r.Fits

namespace Logging

variable {dir : String} {id : FileId} {st : Sessions}

/-- A store opened now has what has been acknowledged, and changes nothing. -/
theorem openAt (h : Logging dir id st) :
    LoggedStore.openAt st.disk dir =
      (.ok ⟨dir, some id, st.acknowledged.foldl LogRecord.apply Table.empty⟩, st.disk) := by
  rw [openAt_of_hasLog h.log, Log.replay_write h.fits]

theorem set (h : Logging dir id st) (n : Nat) {o : Option LoggedStore}
    (ok : ∀ s, o = some s → s.log = none ∨ s.log = some id) :
    Logging dir id { st with stores := st.stores.set n o } := by
  refine ⟨h.log, fun s mem => ?_, h.fits⟩
  rcases List.mem_or_eq_of_mem_set mem with old | own
  · exact h.stores s old
  · exact ok s own.symm

theorem change (h : Logging dir id st) (n : Nat) {record : LogRecord} (fits : record.Fits) :
    Logging dir id (st.use dir (.change n record)) := by
  unfold use
  dsimp only
  split
  · next s found =>
    rcases h.stores s (List.mem_of_getElem? found) with closed | opened
    · rw [change_of_closed closed]
      exact h.set n fun s' own => by cases own; exact .inl closed
    · rw [change_of_open opened]
      refine ⟨?_, (h.set n fun s' own => by cases own; exact .inr opened).stores, fun r mem => ?_⟩
      · show HasLog _ dir id (Log.write (st.acknowledged ++ [record]))
        rw [Log.write_append, Log.write_singleton]
        exact h.log.append (Frame.write record.encode)
      · rcases List.mem_append.1 mem with old | new
        · exact h.fits r old
        · rw [List.mem_singleton.1 new]
          exact fits
  · exact h

theorem use (h : Logging dir id st) {u : Use} (fits : ∀ n r, u = .change n r → r.Fits) :
    Logging dir id (st.use dir u) := by
  cases u with
  | openStore =>
    unfold Sessions.use
    simp only [h.openAt]
    refine ⟨h.log, fun s mem => ?_, h.fits⟩
    rcases List.mem_append.1 mem with old | new
    · exact h.stores s old
    · cases List.mem_singleton.1 new
      exact .inr rfl
  | change n record => exact h.change n (fits n record rfl)
  | close n =>
    unfold Sessions.use
    dsimp only
    split
    · refine h.set n fun s' own => ?_
      cases own
      unfold LoggedStore.close
      split
      · next closed => exact .inl closed
      · exact .inl rfl
    · exact h
  | drop n => exact h.set n nofun

end Logging

/-- Before the first opening nothing has happened. -/
def Untouched (dir : String) (st : Sessions) : Prop :=
  Creatable st.disk dir ∧ st.stores = [] ∧ st.acknowledged = []

theorem Untouched.use {dir : String} {st : Sessions} (h : Untouched dir st) (u : Use) :
    Untouched dir (st.use dir u) ∨ ∃ id, Logging dir id (st.use dir u) := by
  obtain ⟨creatable, noStores, nothing⟩ := h
  cases u with
  | openStore =>
    obtain ⟨id, disk, opened, log⟩ := openAt_of_creatable creatable
    right
    refine ⟨id, ?_, ?_, ?_⟩
    · simp only [Sessions.use, opened, nothing]
      exact log
    · simp [Sessions.use, opened, noStores]
    · simp [Sessions.use, opened, nothing]
  | change n record => exact .inl (by simpa [Sessions.use, noStores, Untouched, nothing] using creatable)
  | close n => exact .inl (by simpa [Sessions.use, noStores, Untouched, nothing] using creatable)
  | drop n => exact .inl (by simpa [Sessions.use, noStores, Untouched, nothing] using creatable)

theorem run_cases {dir : String} {st : Sessions} (h : Untouched dir st ∨ ∃ id, Logging dir id st)
    {uses : List Use} (fits : ∀ n r, .change n r ∈ uses → r.Fits) :
    Untouched dir (st.run dir uses) ∨ ∃ id, Logging dir id (st.run dir uses) := by
  induction uses generalizing st with
  | nil => exact h
  | cons u rest ih =>
    refine ih ?_ fun n r mem => fits n r (List.mem_cons_of_mem u mem)
    rcases h with untouched | ⟨id, logging⟩
    · exact untouched.use u
    · refine .inr ⟨id, logging.use fun n r own => fits n r ?_⟩
      rw [← own]
      exact List.mem_cons_self

/-- On a directory that starts without a log, a store can be opened at any moment
of any history, and under each key it has the value that the last acknowledged
change of the key left. -/
theorem openAt_run {disk : Disk} {dir : String} (creatable : Creatable disk dir) {uses : List Use}
    (fits : ∀ n r, .change n r ∈ uses → r.Fits) :
    ∃ s disk', openAt (run dir { disk } uses).disk dir = (.ok s, disk') ∧
      ∀ key, s.get key = .ok (LogRecord.lastValue? key (run dir { disk } uses).acknowledged) := by
  have start : Untouched dir { disk } := ⟨creatable, rfl, rfl⟩
  rcases run_cases (.inl start) fits with ⟨creatable', -, nothing⟩ | ⟨id, logging⟩
  · obtain ⟨id, disk', opened, -⟩ := openAt_of_creatable creatable'
    refine ⟨_, disk', opened, fun key => ?_⟩
    rw [nothing]
    rfl
  · refine ⟨_, _, logging.openAt, fun key => ?_⟩
    exact congrArg Except.ok (LogRecord.get?_foldl_empty _ key)

/-- Two stores on a directory that is not there at first: a value is put through the
first, put anew through the second, which is closed, and removed through the first,
which is dropped; another value stays. -/
def sharedUses : List Use :=
  [.openStore, .change 0 (.put [1] [10]), .openStore, .change 1 (.put [1] [11]),
    .change 1 (.put [] []), .close 1, .change 1 (.put [2] [20]), .change 0 (.remove [1]), .drop 0]

theorem sharedUses_kept :
    ∃ s disk', openAt (run "store" { disk := {} } sharedUses).disk "store" = (.ok s, disk') ∧
      s.get [1] = .ok none ∧ s.get [] = .ok (some []) ∧ s.get [2] = .ok none := by
  have creatable : Creatable {} "store" := by decide +kernel
  have fits : ∀ n r, Use.change n r ∈ sharedUses → r.Fits := by
    intro n r mem
    simp only [sharedUses, List.mem_cons, reduceCtorEq, Use.change.injEq, List.not_mem_nil,
      or_false, false_or] at mem
    rcases mem with ⟨-, rfl⟩ | ⟨-, rfl⟩ | ⟨-, rfl⟩ | ⟨-, rfl⟩ | ⟨-, rfl⟩ <;> decide
  have acknowledged : (run "store" { disk := {} } sharedUses).acknowledged =
      [.put [1] [10], .put [1] [11], .put [] [], .remove [1]] := by
    decide +kernel
  obtain ⟨s, disk', opened, got⟩ := openAt_run creatable fits
  rw [acknowledged] at got
  exact ⟨s, disk', opened, got [1], got [], got [2]⟩

end Sessions

end TrieStorage
