import TrieStorage.Storage.Basic
import TrieStorage.Text.Decimal

/-!
# Generations

A generation is a numbered directory with a store in it.  A directory name is
read as a number the way 32-bit numbers are read: digits, with an optional plus
sign in front, in any count of leading zeros; the number decides the path that
is opened, whatever the directory was called.
-/

namespace TrieStorage

/-- An opened generation. -/
structure Generation where
  id : Nat
  path : String
  layer : LayerId
  deriving DecidableEq, Repr

namespace Generation

/-- The bound on generation numbers. -/
def idBound : Nat := 4294967296

/-- The number of a directory name. -/
def idOfName? (name : String) : Option Nat := do
  let digits := match name.toList with
    | '+' :: rest => rest
    | cs => cs
  let n ← Decimal.number? digits
  if n < idBound then some n else none

def pathOf (root : String) (id : Nat) : String := Path.join root (toString id)

/-- Opens the generation of a number. -/
def openIn (root : String) (id : Nat) (opener : Opener) (s : Storage) :
    Except StoreError Generation × Storage :=
  let path := pathOf root id
  match s.openGeneration opener path with
  | (.error e, s) => (.error e, s)
  | (.ok layer, s) => (.ok ⟨id, path, layer⟩, s)

/-- Puts a generation into its place among others, ascending; one of the same
number makes room. -/
def place (g : Generation) : List Generation → List Generation
  | [] => [g]
  | h :: rest =>
    if g.id < h.id then g :: h :: rest
    else if g.id = h.id then g :: rest
    else h :: place g rest

def describe (g : Generation) : String :=
  "Generation \x7b id: " ++ toString g.id ++ ", path: " ++ Text.quoted g.path ++ " \x7d"

end Generation

end TrieStorage
