import TrieStorage.Text.Printable

/-!
# Quoted text

Characters and strings shown between quotes, with everything that would not
be visible written as an escape: `\0`, `\t`, `\n`, `\r`, the backslash, the
quote in use, and the code point in braces for the rest.
-/

namespace TrieStorage

namespace Text

/-- The lower-case hexadecimal digits of a number, without leading zeros. -/
def hexDigits (n : Nat) : String := String.ofList (Nat.toDigits 16 n)

/-- The code point of a character, between braces. -/
def codePoint (c : Char) : String := "\\u\x7b" ++ hexDigits c.toNat ++ "\x7d"

/-- A character as it stands between the given quotes. -/
def escaped (quote c : Char) : String :=
  match c.toNat with
  | 0 => "\\0"
  | 9 => "\\t"
  | 10 => "\\n"
  | 13 => "\\r"
  | 92 => "\\\\"
  | _ =>
    if c = quote then "\\" ++ c.toString
    else if isPrintable c && !extendsGrapheme c then c.toString
    else codePoint c

def quotedChar (c : Char) : String :=
  let quote := Char.ofNat 39
  quote.toString ++ escaped quote c ++ quote.toString

def quoted (text : String) : String :=
  let quote := Char.ofNat 34
  quote.toString ++ String.join (text.toList.map (escaped quote)) ++ quote.toString

end Text

end TrieStorage
