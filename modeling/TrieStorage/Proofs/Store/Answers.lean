import TrieStorage.Proofs.Store.Closing
import TrieStorage.Proofs.Store.Logged
import TrieStorage.Proofs.Store.Opening

/-!
# What stores answer

The answers to its calls are all that the users of a store see of it.  A store on disk that
starts without a log and a new store in memory give the same answers to the same calls, although
one forgets its entries when it is closed and the other keeps them behind its door.
-/

namespace TrieStorage

/-! ## Answers -/

namespace Store

/-- The answer to a call; one that only reports success has no value. -/
def answer (s : Store) (disk : Disk) : StoreCall → Except StoreError (Option Bytes)
  | .get key => s.get key
  | .put key value => (s.put disk key value).1.map fun _ => none
  | .remove key => (s.remove disk key).1.map fun _ => none
  | .close => s.close.1.map fun _ => none
  | .selectEpoch _ => .ok none

/-- The answers to calls that are made one after the other. -/
def answers (s : Store) (disk : Disk) : List StoreCall → List (Except StoreError (Option Bytes))
  | [] => []
  | call :: rest => s.answer disk call :: (s.after disk call).1.answers (s.after disk call).2 rest

end Store

/-! ## Where a store starts without a log -/

/-- There is nothing in a directory. -/
structure Disk.Bare (disk : Disk) (dir : String) : Prop where
  there : disk.isDirectory dir = true
  empty : ∀ name, disk.entryAt? (disk.place dir ++ [name]) = none

namespace LoggedStore

/-- In an empty directory a store starts without a log, if its name leaves room for that of
the log. -/
theorem creatable_of_bare {disk : Disk} {dir : String} (bare : disk.Bare dir)
    (usable : Path.isUsable (logPath dir) = true) : Creatable disk dir := by
  have full := Disk.full_of_isDirectory bare.there
  have made := Disk.createDirectories_of_isDirectory bare.there
  refine ⟨by rw [made], ?_, ?_⟩
  · rw [made, Option.eq_none_iff_forall_ne_some]
    intro entry found
    have taken := Disk.entryAt?_place_of_entry? found
    rw [Disk.place_logPath full, bare.empty] at taken
    cases taken
  · rw [made]
    exact Disk.isSome_openFile_join (by decide) (by decide) (by decide) usable bare.there
      (bare.empty logName)

/-! ## A store on disk beside one in memory -/

/-- A store on disk and one in memory that are both closed, or both open with the same under
every key. -/
inductive Twins (s : LoggedStore) (t : MemoryStore) : Prop where
  | opened {id : FileId} (log : s.log = some id) (door : t.closed = false)
      (entries : ∀ key, s.table.get? key = t.table.get? key)
  | closed (log : s.log = none) (door : t.closed = true)

namespace Twins

variable {s : LoggedStore} {t : MemoryStore}

theorem get (h : Twins s t) (key : Bytes) : s.get key = t.get key := by
  cases h with
  | opened log door entries => simp [LoggedStore.get, MemoryStore.get, log, door, entries]
  | closed log door => simp [LoggedStore.get, MemoryStore.get, log, door]

theorem put (h : Twins s t) (disk : Disk) (key value : Bytes) :
    (s.put disk key value).1 = (t.put key value).1 ∧
      Twins (s.put disk key value).2.1 (t.put key value).2 := by
  cases h with
  | @opened id log door entries =>
    have written := change_of_open log disk (.put key value)
    simp only [change] at written
    rw [written, MemoryStore.table_put door]
    refine ⟨rfl, .opened log door fun k => ?_⟩
    simp only [LogRecord.apply, Table.get?_insert, entries]
  | closed log door =>
    have refused := change_of_closed log disk (.put key value)
    simp only [change] at refused
    simp only [refused, MemoryStore.put, door, if_true, true_and]
    exact .closed log door

theorem remove (h : Twins s t) (disk : Disk) (key : Bytes) :
    (s.remove disk key).1 = (t.remove key).1 ∧
      Twins (s.remove disk key).2.1 (t.remove key).2 := by
  cases h with
  | @opened id log door entries =>
    have written := change_of_open log disk (.remove key)
    simp only [change] at written
    simp only [written, MemoryStore.remove, door, Bool.false_eq_true, if_false, true_and]
    refine .opened log rfl fun k => ?_
    simp only [LogRecord.apply, Table.get?_erase, entries]
  | closed log door =>
    have refused := change_of_closed log disk (.remove key)
    simp only [change] at refused
    simp only [refused, MemoryStore.remove, door, if_true, true_and]
    exact .closed log door

/-- Closing makes both forget their differences: nothing is asked of the entries any more. -/
theorem close (h : Twins s t) : s.close.1 = t.close.1 ∧ Twins s.close.2 t.close.2 := by
  cases h with
  | opened log door _ =>
    simp only [LoggedStore.close, MemoryStore.close, log, door, Bool.false_eq_true, if_false,
      true_and]
    exact .closed rfl rfl
  | closed log door =>
    simp only [LoggedStore.close, MemoryStore.close, log, door, if_true, true_and]
    exact .closed log rfl

/-- Twins give the same answers, whatever disks they are on. -/
theorem answers (h : Twins s t) (disk disk' : Disk) (calls : List StoreCall) :
    (Store.logged s).answers disk calls = (Store.memory t).answers disk' calls := by
  induction calls generalizing s t disk disk' with
  | nil => rfl
  | cons call rest ih =>
    cases call with
    | get key => exact List.cons_eq_cons.2 ⟨h.get key, ih h disk disk'⟩
    | put key value =>
      obtain ⟨same, still⟩ := h.put disk key value
      exact List.cons_eq_cons.2 ⟨congrArg (Except.map fun _ => none) same, ih still _ _⟩
    | remove key =>
      obtain ⟨same, still⟩ := h.remove disk key
      exact List.cons_eq_cons.2 ⟨congrArg (Except.map fun _ => none) same, ih still _ _⟩
    | close =>
      obtain ⟨same, still⟩ := h.close
      exact List.cons_eq_cons.2 ⟨congrArg (Except.map fun _ => none) same, ih still _ _⟩
    | selectEpoch epoch => exact List.cons_eq_cons.2 ⟨rfl, ih h disk disk'⟩

end Twins

/-- Where there is no log yet, a store can be opened, and it gives the same answers as a new store
in memory to every sequence of calls, before it is closed and after. -/
theorem answers_as_in_memory {disk : Disk} {dir : String} (creatable : Creatable disk dir) :
    ∃ s disk', openAt disk dir = (.ok s, disk') ∧ ∀ (calls : List StoreCall) (other : Disk),
      (Store.logged s).answers disk' calls = (Store.memory {}).answers other calls := by
  obtain ⟨id, disk', opened, -⟩ := openAt_of_creatable creatable
  have twins : Twins ⟨dir, some id, Table.empty⟩ {} := .opened rfl rfl fun _ => rfl
  exact ⟨_, disk', opened, fun calls other => twins.answers disk' other calls⟩

/-- A disk with one directory, and nothing in it. -/
def bareDisk : Disk := { entries := [(["store"], .directory)] }

/-- Everything is asked of the store in the directory, before it is closed and after. -/
theorem bareDisk_answers : ∃ s disk', openAt bareDisk "store" = (.ok s, disk') ∧
    (Store.logged s).answers disk'
        [.put [1] [10], .put [1] [11], .get [1], .remove [2], .remove [1], .get [1], .put [] [],
          .close, .get [], .put [1] [12], .remove [], .close] =
      [.ok none, .ok none, .ok (some [11]), .ok none, .ok none, .ok none, .ok none,
        .ok none, .error .closed, .error .closed, .error .closed, .error .closed] := by
  have bare : bareDisk.Bare "store" := by
    refine ⟨by decide +kernel, fun name => ?_⟩
    have place : bareDisk.place "store" = ["store"] := by decide +kernel
    rw [place]
    simp [Disk.entryAt?, bareDisk]
  obtain ⟨s, disk', opened, alike⟩ :=
    answers_as_in_memory (creatable_of_bare bare (by decide +kernel))
  exact ⟨s, disk', opened, (alike _ {}).trans (by decide)⟩

end LoggedStore

end TrieStorage
