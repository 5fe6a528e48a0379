/-!
# Paths

A path text is a list of names between slashes.  Resolved against a disk it
becomes the list of names from the root of the disk.  Texts and names have
limits, and no text may hold the character with code point zero.
-/

namespace TrieStorage

/-- A resolved path: the names from the root of the disk down. -/
abbrev Path := List String

namespace Path

/-- The parts of a text between slashes; at least one, possibly empty. -/
def pieces : List Char → List (List Char)
  | [] => [[]]
  | c :: rest =>
    if c = '/' then [] :: pieces rest
    else
      match pieces rest with
      | [] => [[c]]
      | p :: ps => (c :: p) :: ps

/-- The names in a path text; empty names and dots are kept, since each of
them asks for a directory. -/
def names (text : String) : List String := (pieces text.toList).map String.ofList

/-- A path text with one more name after it. -/
def join (base name : String) : String :=
  if base.isEmpty then name
  else if base.toList.getLast? = some '/' then base ++ name
  else base ++ "/" ++ name

def lastName (text : String) : String := (names text).getLast?.getD ""

/-- The text of a resolved path, relative to the root. -/
def text (path : Path) : String := String.intercalate "/" path

def maxNameSize : Nat := 255

/-- The greatest number of bytes in a path text. -/
def maxTextSize : Nat := 4095

/-- Whether something may be looked up under a path text. -/
def isUsable (text : String) : Bool :=
  decide (text.utf8ByteSize ≤ maxTextSize) && !text.toList.contains (Char.ofNat 0)

/-- Names without the empty ones at the end, which slashes leave there. -/
def dropSlashes (names : List String) : List String :=
  (names.reverse.dropWhile fun name => name = "").reverse

/-- Given the names of a text last one first, the same for each text that ends
at one of them, longest first.  Empty names and dots are passed over; a dot
counts where the text starts with it. -/
def stems : List String → List (List String)
  | [] => []
  | name :: above =>
    if name = "" ∨ (name = "." ∧ above ≠ []) then stems above
    else (name :: above) :: stems above

/-- The path texts above a path text, innermost first. -/
def parents (path : String) : List String :=
  (stems (names path).reverse).tail.map fun stem => text stem.reverse

end Path

end TrieStorage
