import TrieStorage.Bytes.Basic

/-!
# Tables

A finite map from byte strings to byte strings.  A key stands in the list at
most once: writing drops an earlier entry of the same key.  Everything about a
table is said through `get?`; the two equations `get?_insert` and `get?_erase`
describe the operations completely.
-/

namespace TrieStorage

/-- A finite map from keys to values. -/
structure Table where
  entries : List (Bytes × Bytes) := []
  deriving DecidableEq, Repr

namespace Table

def empty : Table := {}

/-- The value of the first entry of a key. -/
def lookup (key : Bytes) : List (Bytes × Bytes) → Option Bytes
  | [] => none
  | (k, v) :: rest => if k = key then some v else lookup key rest

def get? (table : Table) (key : Bytes) : Option Bytes := lookup key table.entries

/-- Whether a key has a value. -/
def contains (table : Table) (key : Bytes) : Bool := (table.get? key).isSome

def without (key : Bytes) (entries : List (Bytes × Bytes)) : List (Bytes × Bytes) :=
  entries.filter fun e => e.1 ≠ key

/-- Puts a value under a key, in place of any earlier one. -/
def insert (table : Table) (key value : Bytes) : Table :=
  ⟨(key, value) :: without key table.entries⟩

def erase (table : Table) (key : Bytes) : Table := ⟨without key table.entries⟩

def size (table : Table) : Nat := table.entries.length

theorem lookup_without (key other : Bytes) (entries : List (Bytes × Bytes)) :
    lookup other (without key entries) = if key = other then none else lookup other entries := by
  induction entries with
  | nil => simp [without, lookup]
  | cons e rest ih =>
    obtain ⟨k, v⟩ := e
    by_cases hk : k = key
    · subst hk
      have drop : without k ((k, v) :: rest) = without k rest := by simp [without]
      rw [drop, ih]
      by_cases ho : k = other <;> simp [lookup, ho]
    · have keep : without key ((k, v) :: rest) = (k, v) :: without key rest := by
        simp [without, hk]
      rw [keep, lookup, lookup, ih]
      by_cases hko : k = other
      · subst hko
        simp [Ne.symm hk]
      · simp [hko]

@[simp] theorem get?_empty (key : Bytes) : empty.get? key = none := rfl

theorem get?_insert (table : Table) (key value other : Bytes) :
    (table.insert key value).get? other = if key = other then some value else table.get? other := by
  simp only [get?, insert, lookup, lookup_without]
  by_cases h : key = other <;> simp [h]

theorem get?_erase (table : Table) (key other : Bytes) :
    (table.erase key).get? other = if key = other then none else table.get? other :=
  lookup_without key other table.entries

end Table

end TrieStorage
