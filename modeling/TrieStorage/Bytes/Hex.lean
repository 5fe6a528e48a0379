import TrieStorage.Bytes.Basic
import TrieStorage.Text.Quoted

/-!
# Hexadecimal text

Two lower-case digits per byte on the way out; either case is read back.
Reading works on the UTF-8 bytes of the text: an odd number of them is
reported before any bad digit, and a bad digit is reported with its byte
position.
-/

namespace TrieStorage

/-- Why a text is not the hexadecimal form of a byte string. -/
inductive HexError where
  /-- The text has an odd number of bytes. -/
  | oddLength
  /-- The byte at this position is not a hexadecimal digit. -/
  | badDigit (position : Nat) (byte : UInt8)
  deriving DecidableEq, Repr

namespace HexError

/-- The wording of the error; a bad byte is shown as the character of that code. -/
def message : HexError → String
  | .oddLength => "Odd number of digits"
  | .badDigit position byte =>
    "Invalid character " ++ Text.quotedChar (Char.ofNat byte.toNat) ++
      " at position " ++ toString position

end HexError

namespace Hex

/-- The digit of a number below sixteen. -/
def digit (n : Nat) : Char :=
  if n < 10 then Char.ofNat (48 + n) else Char.ofNat (87 + n)

/-- The value of a digit, given by its ASCII code. -/
def value? (byte : UInt8) : Option UInt8 :=
  if 48 ≤ byte ∧ byte ≤ 57 then some (byte - 48)
  else if 97 ≤ byte ∧ byte ≤ 102 then some (byte - 87)
  else if 65 ≤ byte ∧ byte ≤ 70 then some (byte - 55)
  else none

/-- The two digits of a byte, high half first. -/
def encodeByte (byte : UInt8) : List Char :=
  [digit (byte.toNat / 16), digit (byte.toNat % 16)]

def encode (bytes : Bytes) : String := String.ofList (bytes.flatMap encodeByte)

/-- The value of the digit at a position, or the complaint about it. -/
def valueAt (position : Nat) (byte : UInt8) : Except HexError UInt8 :=
  match value? byte with
  | some v => .ok v
  | none => .error (.badDigit position byte)

/-- Reads pairs of digits, the first of which stands at `position`. -/
def decodePairs (position : Nat) : Bytes → Except HexError Bytes
  | [] => .ok []
  | [_] => .error .oddLength
  | high :: low :: rest => do
    let h ← valueAt position high
    let l ← valueAt (position + 1) low
    let tail ← decodePairs (position + 2) rest
    return (h * 16 + l) :: tail

/-- Reads hexadecimal text, given by its UTF-8 bytes. -/
def decodeBytes (text : Bytes) : Except HexError Bytes :=
  if text.length % 2 = 0 then decodePairs 0 text else .error .oddLength

def decode (text : String) : Except HexError Bytes := decodeBytes (Bytes.ofText text)

end Hex

end TrieStorage
