import TrieStorage.Toml.Number

/-!
# TOML documents

Values, and the lines that assign them.  A dotted key goes through tables that
dotted keys made; a header goes through every kind of table and through the
last element of an array of tables; a table is opened by a header once.
-/

namespace TrieStorage

namespace Toml

/-- A table under construction. -/
structure Scope where
  form : TableForm
  fields : Fields
  deriving Repr

namespace Scope

def value (s : Scope) : Value := .table s.form s.fields

/-- The scope after one of its fields has been set. -/
def set (s : Scope) (key : String) (v : Value) : Scope := { s with fields := s.fields.set key v }

/-- Changes the scope at the end of a path, making what is missing on the way.
`dotted` tells that the path is that of a dotted key. -/
def descend {α : Type} (dotted : Bool) (change : Scope → Option (α × Scope)) :
    List String → Scope → Option (α × Scope)
  | [], s => change s
  | key :: path, s =>
    match s.fields.get? key with
    | none => do
      let (a, child) ← descend dotted change path ⟨if dotted then .dotted else .implied, []⟩
      some (a, s.set key child.value)
    | some (.table form fields) =>
      if form = .inline ∨ (dotted ∧ form = .header) then none
      else do
        let (a, child) ← descend dotted change path ⟨form, fields⟩
        some (a, s.set key child.value)
    | some (.tables elements) =>
      match elements.getLast? with
      | some (.table form fields) => do
        let (a, child) ← descend dotted change path ⟨form, fields⟩
        some (a, s.set key (.tables (elements.dropLast ++ [child.value])))
      | _ => none
    | some _ => none

/-- Assigns a value to a key, dotted or not. -/
def assign (s : Scope) (path : List String) (key : String) (v : Value) : Option Scope := do
  let put : Scope → Option (Unit × Scope) := fun inner =>
    if (inner.form == .dotted) == path.isEmpty then none
    else if (inner.fields.get? key).isSome then none
    else some ((), inner.set key v)
  let (_, s) ← descend true put path s
  some s

end Scope

/-- The words for the truth values. -/
def boolean? : Chars → Option (Value × Chars)
  | 't' :: 'r' :: 'u' :: 'e' :: rest => some (.boolean true, rest)
  | 'f' :: 'a' :: 'l' :: 's' :: 'e' :: rest => some (.boolean false, rest)
  | _ => none

/-- A value that contains no others. -/
def scalar? (cs : Chars) : Option (Value × Chars) :=
  match cs with
  | [] => none
  | c :: _ =>
    if c = '\"' ∨ c = '\'' then (string? cs).map fun (text, rest) => (.string text, rest)
    else if isDigit c ∨ c = '+' ∨ c = '-' then number? cs
    else if c = 'i' ∨ c = 'n' then specialFloat? cs
    else boolean? cs

mutual

/-- A value; `room` is how many more values it may be nested in. -/
def value? : Nat → Nat → Chars → Option (Value × Chars)
  | 0, _, _ => none
  | fuel + 1, room, cs =>
    match cs with
    | '[' :: rest =>
      if room ≤ 1 then none
      else (items? fuel (room - 1) rest).map fun (items, rest) => (.array items, rest)
    | '{' :: rest =>
      if room ≤ 1 then none
      else
        match skipBlanks rest with
        | '}' :: rest => some (.table .inline [], rest)
        | rest =>
          (pairs? fuel (room - 1) ⟨.inline, []⟩ rest).map fun (s, rest) => (s.value, rest)
    | _ => scalar? cs

/-- The items of an array and its closing bracket. -/
def items? : Nat → Nat → Chars → Option (List Value × Chars)
  | 0, _, _ => none
  | fuel + 1, room, cs => do
    match ← skipTrivia false cs with
    | ']' :: rest => some ([], rest)
    | rest => do
      let (item, rest) ← value? fuel room rest
      match ← skipTrivia false rest with
      | ',' :: rest => do
        let (items, rest) ← items? fuel room rest
        some (item :: items, rest)
      | ']' :: rest => some ([item], rest)
      | _ => none

/-- The assignments of a table between braces and its closing brace. -/
def pairs? : Nat → Nat → Scope → Chars → Option (Scope × Chars)
  | 0, _, _, _ => none
  | fuel + 1, room, s, cs => do
    let (path, key, rest) ← key? cs
    let rest ← char? '=' rest
    let (v, rest) ← value? fuel room (skipBlanks rest)
    let s ← s.assign path key v
    match skipBlanks rest with
    | ',' :: rest => pairs? fuel room s rest
    | '}' :: rest => some (s, rest)
    | _ => none

end

/-- A document as far as it has been read: the tables that are complete, and the
one that assignments go to with the header it was opened by. -/
structure Draft where
  root : Scope := ⟨.header, []⟩
  current : Scope := ⟨.header, []⟩
  /-- The path and the last part of the header in force, and whether it has
  double brackets; nothing before the first header. -/
  opened : Option (List String × String × Bool) := none
  deriving Repr

namespace Draft

def finish (d : Draft) : Option Scope :=
  match d.opened with
  | none => some d.current
  | some (path, key, doubled) => do
    let put : Scope → Option (Unit × Scope) := fun s =>
      match s.fields.get? key, doubled with
      | none, true => some ((), s.set key (.tables [d.current.value]))
      | some (.tables elements), true =>
        some ((), s.set key (.tables (elements ++ [d.current.value])))
      | none, false => some ((), s.set key d.current.value)
      | _, _ => none
    let (_, root) ← Scope.descend false put path d.root
    some root

def openTable (d : Draft) (path : List String) (key : String) : Option Draft := do
  let root ← d.finish
  let take : Scope → Option (Fields × Scope) := fun s =>
    match s.fields.get? key with
    | none => some ([], s)
    | some (.table .implied fields) => some (fields, { s with fields := s.fields.erase key })
    | some _ => none
  let (fields, root) ← Scope.descend false take path root
  some { root, current := ⟨.header, fields⟩, opened := some (path, key, false) }

/-- Opens one more table of a header in double brackets. -/
def openElement (d : Draft) (path : List String) (key : String) : Option Draft := do
  let root ← d.finish
  let check : Scope → Option (Unit × Scope) := fun s =>
    match s.fields.get? key with
    | none => some ((), s)
    | some (.tables _) => some ((), s)
    | some _ => none
  let (_, root) ← Scope.descend false check path root
  some { root, current := ⟨.header, []⟩, opened := some (path, key, true) }

/-- Reads one line that says something, behind its blanks. -/
def readLine (d : Draft) (cs : Chars) : Option (Draft × Chars) :=
  match cs with
  | '[' :: '[' :: rest => do
    let (path, key, rest) ← key? rest
    let rest ← char? ']' rest
    let rest ← char? ']' rest
    let rest ← lineTail? rest
    let d ← d.openElement path key
    some (d, rest)
  | '[' :: rest => do
    let (path, key, rest) ← key? rest
    let rest ← char? ']' rest
    let rest ← lineTail? rest
    let d ← d.openTable path key
    some (d, rest)
  | _ => do
    let (path, key, rest) ← key? cs
    let rest ← char? '=' rest
    let (v, rest) ← value? (2 * rest.length + 4) depthLimit (skipBlanks rest)
    let rest ← lineTail? rest
    let current ← d.current.assign path key v
    some ({ d with current }, rest)

def readLines : Nat → Draft → Chars → Option Draft
  | 0, _, _ => none
  | fuel + 1, d, cs =>
    match skipBlanks cs with
    | [] => some d
    | '#' :: rest => do
      let rest ← lineEnd? (skipComment ('#' :: rest))
      readLines fuel d rest
    | c :: rest =>
      if c = '\n' ∨ c = '\r' then do
        let rest ← newline? (c :: rest)
        readLines fuel d rest
      else do
        let (d, rest) ← d.readLine (c :: rest)
        readLines fuel d rest

end Draft

/-- The top-level fields of a document; a byte order mark in front is ignored. -/
def parse (text : String) : Option Fields := do
  let cs := match text.toList with
    | c :: rest => if c.toNat = 0xFEFF then rest else c :: rest
    | [] => []
  let d ← Draft.readLines (cs.length + 1) {} cs
  let root ← d.finish
  some root.fields

end Toml

end TrieStorage
