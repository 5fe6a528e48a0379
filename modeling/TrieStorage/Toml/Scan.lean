/-!
# The tokens of TOML

Blanks, comments, line ends, strings and keys.  Each scanner takes its token
off the front of the remaining characters and fails when the token is not
there or is not complete.
-/

namespace TrieStorage

namespace Toml

/-- The remaining characters. -/
abbrev Chars := List Char

def isBlank (c : Char) : Bool := c = ' ' || c = '\t'

def skipBlanks (cs : Chars) : Chars := cs.dropWhile isBlank

/-- A character that may stand in a comment. -/
def inComment (c : Char) : Bool := c = '\t' || (32 ≤ c.toNat && c.toNat ≠ 127)

/-- A character that may stand for itself between double quotes. -/
def inBasic (c : Char) : Bool :=
  c = '\t' || (32 ≤ c.toNat && c.toNat ≠ 34 && c.toNat ≠ 92 && c.toNat ≠ 127)

/-- A character that may stand between single quotes. -/
def inLiteral (c : Char) : Bool :=
  c = '\t' || (32 ≤ c.toNat && c.toNat ≠ 39 && c.toNat ≠ 127)

def inBareKey (c : Char) : Bool := c.isAlphanum || c = '-' || c = '_'

def newline? : Chars → Option Chars
  | '\n' :: rest => some rest
  | '\r' :: '\n' :: rest => some rest
  | _ => none

/-- A line end or the end of the document. -/
def lineEnd? (cs : Chars) : Option Chars := if cs.isEmpty then some [] else newline? cs

/-- Drops a comment, if one starts here. -/
def skipComment : Chars → Chars
  | '#' :: rest => rest.dropWhile inComment
  | cs => cs

/-- What may follow on a line once it has said something. -/
def lineTail? (cs : Chars) : Option Chars := lineEnd? (skipComment (skipBlanks cs))

/-- Drops blanks, line ends and comments; `commented` tells that a comment has
been entered, which then has to end with its line. -/
def skipTrivia : Bool → Chars → Option Chars
  | false, [] => some []
  | true, [] => none
  | _, '\r' :: '\n' :: rest => skipTrivia false rest
  | commented, c :: rest =>
    if c = '\n' then skipTrivia false rest
    else if commented then if inComment c then skipTrivia true rest else none
    else if isBlank c then skipTrivia false rest
    else if c = '#' then skipTrivia true rest
    else if c = '\r' then none
    else some (c :: rest)

def hexValue? (c : Char) : Option Nat :=
  if '0' ≤ c ∧ c ≤ '9' then some (c.toNat - 48)
  else if 'a' ≤ c ∧ c ≤ 'f' then some (c.toNat - 87)
  else if 'A' ≤ c ∧ c ≤ 'F' then some (c.toNat - 55)
  else none

/-- The character whose code point the digits give. -/
def codePoint? (digits : List Char) : Option Char := do
  let values ← digits.mapM hexValue?
  let code := values.foldl (fun n d => 16 * n + d) 0
  if h : code.isValidChar then some (Char.ofNatAux code h) else none

def simpleEscape? : Char → Option Char
  | 'b' => some (Char.ofNat 8)
  | 't' => some '\t'
  | 'n' => some '\n'
  | 'f' => some (Char.ofNat 12)
  | 'r' => some '\r'
  | '\"' => some '\"'
  | '\\' => some '\\'
  | _ => none

/-- An escape, behind its backslash. -/
def escape? : Chars → Option (Char × Chars)
  | 'u' :: a :: b :: c :: d :: rest => do
    let char ← codePoint? [a, b, c, d]
    some (char, rest)
  | 'U' :: a :: b :: c :: d :: e :: f :: g :: h :: rest => do
    let char ← codePoint? [a, b, c, d, e, f, g, h]
    some (char, rest)
  | letter :: rest => do
    let char ← simpleEscape? letter
    some (char, rest)
  | [] => none

/-- The inside of a one-line string between double quotes, and the closing quote. -/
def basicBody : Nat → Chars → Option (Chars × Chars)
  | 0, _ => none
  | _ + 1, '\"' :: rest => some ([], rest)
  | fuel + 1, '\\' :: rest => do
    let (char, rest) ← escape? rest
    let (body, rest) ← basicBody fuel rest
    some (char :: body, rest)
  | fuel + 1, c :: rest =>
    if inBasic c then do
      let (body, rest) ← basicBody fuel rest
      some (c :: body, rest)
    else none
  | _ + 1, [] => none

/-- A one-line string between double quotes, behind the opening quote. -/
def basicString? (cs : Chars) : Option (String × Chars) := do
  let (body, rest) ← basicBody (cs.length + 1) cs
  some (String.ofList body, rest)

/-- A one-line string between single quotes, behind the opening quote. -/
def literalString? (cs : Chars) : Option (String × Chars) :=
  match cs.dropWhile inLiteral with
  | '\'' :: rest => some (String.ofList (cs.takeWhile inLiteral), rest)
  | _ => none

/-- The end of a string of several lines, behind three closing quotes: up to two
more quotes belong to the string. -/
def closing (quote : Char) (rest : Chars) : Chars × Chars :=
  match rest with
  | a :: b :: more =>
    if a = quote then if b = quote then ([quote, quote], more) else ([quote], b :: more)
    else ([], rest)
  | [a] => if a = quote then ([quote], []) else ([], rest)
  | [] => ([], [])

/-- Whether three quotes come next. -/
def atDelimiter (quote : Char) (cs : Chars) : Bool := [quote, quote, quote].isPrefixOf cs

/-- A line end behind a backslash, with the blanks before it and all blanks and
line ends after it. -/
def lineContinuation? (cs : Chars) : Option Chars := do
  let rest ← newline? (skipBlanks cs)
  let blank := fun c => isBlank c || c = '\n' || c = '\r'
  let trimmed := rest.dropWhile blank
  -- a carriage return is blank only in front of a line feed
  let spaces := rest.takeWhile blank
  if loneReturn spaces then none else some trimmed
where
  /-- Whether a carriage return stands without its line feed. -/
  loneReturn : Chars → Bool
    | [] => false
    | '\r' :: '\n' :: rest => loneReturn rest
    | c :: rest => c = '\r' || loneReturn rest

/-- The inside of a string of several lines, and the closing quotes. -/
def multilineBody (basic : Bool) (quote : Char) : Nat → Chars → Option (Chars × Chars)
  | 0, _ => none
  | fuel + 1, cs =>
    if atDelimiter quote cs then some (closing quote (cs.drop 3))
    else
      match newline? cs with
      | some rest => do
        let (body, rest) ← multilineBody basic quote fuel rest
        some ('\n' :: body, rest)
      | none =>
        match cs with
        | [] => none
        | c :: rest =>
          if basic && c = '\\' then
            match lineContinuation? rest with
            | some rest => multilineBody basic quote fuel rest
            | none => do
              let (char, rest) ← escape? rest
              let (body, rest) ← multilineBody basic quote fuel rest
              some (char :: body, rest)
          else if (if basic then inBasic c else inLiteral c) || c = quote then do
            let (body, rest) ← multilineBody basic quote fuel rest
            some (c :: body, rest)
          else none

/-- A string of several lines, behind its three opening quotes; a line end
right there is not part of it. -/
def multilineString? (basic : Bool) (quote : Char) (cs : Chars) : Option (String × Chars) := do
  let inside := (newline? cs).getD cs
  let (body, rest) ← multilineBody basic quote (inside.length + 1) inside
  some (String.ofList body, rest)

def string? : Chars → Option (String × Chars)
  | '\"' :: '\"' :: '\"' :: rest => multilineString? true '\"' rest
  | '\'' :: '\'' :: '\'' :: rest => multilineString? false '\'' rest
  | '\"' :: rest => basicString? rest
  | '\'' :: rest => literalString? rest
  | _ => none

def simpleKey? : Chars → Option (String × Chars)
  | '\"' :: rest => basicString? rest
  | '\'' :: rest => literalString? rest
  | cs =>
    let name := cs.takeWhile inBareKey
    if name.isEmpty then none else some (String.ofList name, cs.dropWhile inBareKey)

/-- The parts of a key between dots, with the blanks around them. -/
def keyParts : Nat → Chars → Option (List String × Chars)
  | 0, _ => none
  | fuel + 1, cs => do
    let (part, rest) ← simpleKey? (skipBlanks cs)
    match skipBlanks rest with
    | '.' :: rest => do
      let (parts, rest) ← keyParts fuel rest
      some (part :: parts, rest)
    | rest => some ([part], rest)

/-- How deep keys and values may nest. -/
def depthLimit : Nat := 80

/-- A key: the parts in front of the last one, and the last one. -/
def key? (cs : Chars) : Option (List String × String × Chars) := do
  let (parts, rest) ← keyParts (cs.length + 1) cs
  let last ← parts.getLast?
  if depthLimit ≤ parts.length then none else some (parts.dropLast, last, rest)

end Toml

end TrieStorage
