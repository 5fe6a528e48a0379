import TrieStorage.Generation.Basic

/-!
# Finding generations

The directories under a root, in the order of the bytes of their names, are
opened one after the other.  The first name that is not a number, or the first
that cannot be opened, ends the scan; what was opened before it counts.  Plain
files are passed over, and a missing root holds nothing.
-/

namespace TrieStorage

/-- What a scan found. -/
structure Discovery where
  /-- The opened generations, ascending. -/
  generations : List Generation := []
  /-- What ended the scan early. -/
  error : Option StoreError := none
  deriving Repr

namespace Discovery

/-- The number after the greatest one found.  It stands for a number of 32 bits and is one as long
as no directory has the last of these for its name; here the number after that is
`Generation.idBound`, which no directory name is read as. -/
def nextId (d : Discovery) : Nat :=
  match d.generations.getLast? with
  | none => 0
  | some g => g.id + 1

/-- Opens directories by name until one fails. -/
def scan (root : String) (opener : Opener) :
    List String → List Generation → Storage → Discovery × Storage
  | [], found, s => ({ generations := found }, s)
  | name :: names, found, s =>
    match Generation.idOfName? name with
    | none => ({ generations := found, error := some (.invalidGenerationName name) }, s)
    | some id =>
      match Generation.openIn root id opener s with
      | (.error e, s) => ({ generations := found, error := some e }, s)
      | (.ok g, s) => scan root opener names (g.place found) s

/-- The order in which a scan takes directory names. -/
def scanOrder (names : List String) : List String := names.mergeSort fun a b => a ≤ b

/-- Opens all generations under a root. -/
def run (root : String) (opener : Opener) (s : Storage) : Discovery × Storage :=
  match s.disk.entry? root with
  | none => ({}, s)
  | some (.file _) => ({ error := some (.notADirectory root) }, s)
  | some .directory => scan root opener (scanOrder (s.disk.subdirectories root)) [] s

end Discovery

end TrieStorage
