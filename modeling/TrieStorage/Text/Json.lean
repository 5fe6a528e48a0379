/-!
# JSON text

Documents as they are printed for reading: two spaces more for each level, one
item to a line, and nothing between the brackets of an empty array.
-/

namespace TrieStorage

/-- A document to be printed. -/
inductive Json where
  | null
  | boolean (truth : Bool)
  | number (n : Nat)
  | string (text : String)
  | array (items : List Json)
  | object (members : List (String × Json))
  deriving Repr

namespace Json

/-- Two lower-case hexadecimal digits of a small number. -/
def twoDigits (n : Nat) : String :=
  String.ofList [Nat.digitChar (n / 16 % 16), Nat.digitChar (n % 16)]

def escape (c : Char) : String :=
  match c.toNat with
  | 8 => "\\b"
  | 9 => "\\t"
  | 10 => "\\n"
  | 12 => "\\f"
  | 13 => "\\r"
  | 34 => "\\\""
  | 92 => "\\\\"
  | n => if n < 32 then "\\u00" ++ twoDigits n else c.toString

def quote (text : String) : String := "\"" ++ String.join (text.toList.map escape) ++ "\""

/-- A line end and the margin of a level. -/
def newline (level : Nat) : String := "\n" ++ String.ofList (List.replicate (2 * level) ' ')

/-- Items between brackets, one to a line. -/
def bracket (opening closing : String) (level : Nat) : List String → String
  | [] => opening ++ closing
  | items =>
    opening ++ newline (level + 1) ++ String.intercalate ("," ++ newline (level + 1)) items ++
      newline level ++ closing

mutual

/-- A document, the first line of which stands at a level. -/
def renderAt (level : Nat) : Json → String
  | .null => "null"
  | .boolean truth => toString truth
  | .number n => toString n
  | .string text => quote text
  | .array items => bracket "[" "]" level (renderItems (level + 1) items)
  | .object members => bracket "\x7b" "\x7d" level (renderMembers (level + 1) members)

def renderItems (level : Nat) : List Json → List String
  | [] => []
  | item :: rest => renderAt level item :: renderItems level rest

def renderMembers (level : Nat) : List (String × Json) → List String
  | [] => []
  | (key, value) :: rest => (quote key ++ ": " ++ renderAt level value) :: renderMembers level rest

end

def render (document : Json) : String := renderAt 0 document

end Json

end TrieStorage
