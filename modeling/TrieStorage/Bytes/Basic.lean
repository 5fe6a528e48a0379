/-!
# Byte strings

Everything the library stores, hashes or frames is a finite list of bytes.
Text enters and leaves through UTF-8.
-/

namespace TrieStorage

/-- A finite string of bytes. -/
abbrev Bytes := List UInt8

namespace Bytes

/-- The UTF-8 form of a text. -/
def ofText (text : String) : Bytes := text.toUTF8.data.toList

/-- The text whose UTF-8 form is given, if there is one. -/
def toText? (bytes : Bytes) : Option String := String.fromUTF8? ⟨bytes.toArray⟩

end Bytes

end TrieStorage
