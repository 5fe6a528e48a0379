import TrieStorage.Bytes.LittleEndian

/-!
# The binary layout

A choice is a 32-bit tag followed by the fields of that case; a byte string is
a 64-bit length followed by its bytes; all numbers are little-endian.  Readers
take what they need from the front and hand on the rest, so that bytes after a
complete value are never looked at.
-/

namespace TrieStorage

/-- Why a byte string does not start with a value of the layout. -/
inductive LayoutError where
  /-- The bytes end inside the value. -/
  | unexpectedEnd
  /-- The tag is not below the number of cases. -/
  | unknownTag (tag cases : Nat)
  deriving DecidableEq, Repr

namespace LayoutError

def message : LayoutError → String
  | .unexpectedEnd => "io error: unexpected end of file"
  | .unknownTag tag cases =>
    "invalid value: integer `" ++ toString tag ++
      "`, expected variant index 0 <= i < " ++ toString cases

end LayoutError

namespace Layout

/-- What a reader yields: a value and the bytes after it. -/
abbrev Reader (α : Type) := Bytes → Except LayoutError (α × Bytes)

def readExactly (count : Nat) : Reader Bytes := fun bytes =>
  if count ≤ bytes.length then .ok (bytes.take count, bytes.drop count)
  else .error .unexpectedEnd

/-- A number of the given width. -/
def readNumber (width : Nat) : Reader Nat := fun bytes =>
  match readExactly width bytes with
  | .ok (front, rest) => .ok (LittleEndian.decode front, rest)
  | .error e => .error e

/-- A byte string with its length in front. -/
def readBytes : Reader Bytes := fun bytes =>
  match readNumber 8 bytes with
  | .ok (count, rest) => readExactly count rest
  | .error e => .error e

def writeTag (tag : Nat) : Bytes := LittleEndian.encode 4 tag

/-- A byte string with its length in front. -/
def writeBytes (bytes : Bytes) : Bytes := LittleEndian.encode 8 bytes.length ++ bytes

end Layout

end TrieStorage
