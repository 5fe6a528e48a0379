import TrieStorage.Toml.Scan

/-!
# Strings written as TOML

A string is written on one line between double quotes if it needs no escapes
but that of a tab.  Otherwise the first of these forms that fits is taken:
between single quotes, between triple double quotes, between triple single
quotes.  If none fits, it is written with escapes, over several lines if it has
line ends.
-/

namespace TrieStorage

namespace Toml

/-- The greatest number of adjacent occurrences of a character. -/
def longestRun (c : Char) (cs : Chars) : Nat :=
  (cs.foldl (fun (best, run) x =>
    let run := if x = c then run + 1 else 0
    (Nat.max best run, run)) (0, 0)).1

/-- A control character that can only be written as an escape. -/
def needsEscapeCode (c : Char) : Bool :=
  (c.toNat ≤ 31 && c ≠ '\t' && c ≠ '\n') || c.toNat = 127

/-- The escape of a control character by its code point in four digits. -/
def unicodeEscape (c : Char) : String :=
  let digits := Nat.toDigits 16 c.toNat
  "\\u" ++ String.ofList (List.replicate (4 - digits.length) '0' ++ digits.map Char.toUpper)

/-- The text of a string between double quotes; `quotes` counts the double
quotes just before, of which `allowed` may stand next to each other. -/
def escapedBody (multiline : Bool) (allowed : Nat) : Nat → Chars → String
  | _, [] => ""
  | quotes, c :: rest =>
    if c = '\"' then
      if allowed < quotes + 1 then "\\\"" ++ escapedBody multiline allowed 0 rest
      else "\"" ++ escapedBody multiline allowed (quotes + 1) rest
    else
      let shown :=
        match c.toNat with
        | 8 => "\\b"
        | 9 => "\\t"
        | 10 => if multiline then "\n" else "\\n"
        | 12 => "\\f"
        | 13 => "\\r"
        | 92 => "\\\\"
        | _ => if needsEscapeCode c then unicodeEscape c else c.toString
      shown ++ escapedBody multiline allowed 0 rest

def writeString (text : String) : String :=
  let cs := text.toList
  let codes := cs.any needsEscapeCode
  let backslash := cs.contains '\\'
  let newline := cs.contains '\n'
  let doubles := longestRun '\"' cs
  let singles := longestRun '\'' cs
  let opening := if newline then "\n" else ""
  let basic := "\"" ++ escapedBody false 0 0 cs ++ "\""
  let multiline := "\"\"\"" ++ opening ++ escapedBody true 2 0 cs ++ "\"\"\""
  if !codes && !backslash && doubles = 0 && !newline then basic
  else if !codes && singles = 0 && !newline then "\'" ++ text ++ "\'"
  else if !codes && !backslash && doubles ≤ 2 then multiline
  else if !codes && singles ≤ 2 then "\'\'\'" ++ opening ++ text ++ "\'\'\'"
  else if newline then multiline
  else basic

end Toml

end TrieStorage
