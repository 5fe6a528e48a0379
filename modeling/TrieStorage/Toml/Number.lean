import TrieStorage.Toml.Scan
import TrieStorage.Toml.Value

/-!
# Numbers and dates of TOML

Everything that starts with a digit or a sign.  A date or a time of day is
recognised first, then a number with a fraction or an exponent, then an
integer.
-/

namespace TrieStorage

namespace Toml

def isDigit (c : Char) : Bool := c.isDigit

/-- The number that decimal digits stand for; other characters are passed over. -/
def decimal (digits : Chars) : Nat :=
  (digits.filter isDigit).foldl (fun n c => 10 * n + (c.toNat - 48)) 0

/-- More digits, with single underscores between digits. -/
def moreDigits (digit : Char → Bool) : Chars → Option (Chars × Chars)
  | [] => some ([], [])
  | '_' :: c :: rest =>
    if digit c then do
      let (digits, rest) ← moreDigits digit rest
      some (c :: digits, rest)
    else none
  | ['_'] => none
  | c :: rest =>
    if digit c then do
      let (digits, rest) ← moreDigits digit rest
      some (c :: digits, rest)
    else some ([], c :: rest)

def digits? (digit : Char → Bool) : Chars → Option (Chars × Chars)
  | c :: rest =>
    if digit c then do
      let (digits, rest) ← moreDigits digit rest
      some (c :: digits, rest)
    else none
  | [] => none

/-- A sign, if there is one; true for minus. -/
def sign : Chars → Bool × Chars
  | '-' :: rest => (true, rest)
  | '+' :: rest => (false, rest)
  | cs => (false, cs)

/-- The digits of a decimal integer: a lone zero, or digits that do not start
with zero. -/
def decimalDigits? : Chars → Option (Chars × Chars)
  | '0' :: rest => some (['0'], rest)
  | cs => digits? isDigit cs

/-- Whether a number fits in 64 bits with sign. -/
def fits64 (n : Int) : Bool := -9223372036854775808 ≤ n && n ≤ 9223372036854775807

/-- An integer in another base, behind its base mark. -/
def basedInteger? (base : Nat) (digit : Char → Bool) (cs : Chars) : Option (Value × Chars) := do
  let (digits, rest) ← digits? digit cs
  let values ← digits.mapM hexValue?
  let n := values.foldl (fun n d => base * n + d) 0
  if fits64 n then some (.integer (n : Int), rest) else none

/-- The least number that is too large for a 64-bit float, when halves round to
the even neighbour. -/
def floatBound : Nat := Nat.pow 2 1024 - Nat.pow 2 970

/-- Whether `mantissa` times that power of ten is too large for a 64-bit float. -/
def overflowsFloat (mantissa : Nat) (exponent : Int) : Bool :=
  let digits : Int := (toString mantissa).length
  if mantissa = 0 ∨ digits + exponent < 300 then false
  else if 320 < digits + exponent then true
  else if 0 ≤ exponent then floatBound ≤ mantissa * Nat.pow 10 exponent.toNat
  else floatBound * Nat.pow 10 (-exponent).toNat ≤ mantissa

/-- An exponent, behind its letter. -/
def exponent? (cs : Chars) : Option (Int × Chars) := do
  let (negative, rest) := sign cs
  let (digits, rest) ← digits? isDigit rest
  let n : Int := decimal digits
  some (if negative then -n else n, rest)

def isExponentMark (c : Char) : Bool := c = 'e' || c = 'E'

/-- A fraction, if one follows. -/
def fraction? : Chars → Option (Chars × Chars)
  | '.' :: rest => digits? isDigit rest
  | cs => some ([], cs)

/-- What follows the integer digits of a number. -/
def numberTail? (negative : Bool) (whole : Chars) (cs : Chars) : Option (Value × Chars) := do
  let (fraction, rest) ← fraction? cs
  let (exponent, rest) ←
    match rest with
    | c :: more => if isExponentMark c then exponent? more else some (0, rest)
    | [] => some (0, [])
  let mantissa := decimal (whole ++ fraction)
  if rest.length = cs.length then
    let n : Int := if negative then -(mantissa : Int) else mantissa
    if fits64 n then some (.integer n, rest) else none
  else if !negative && overflowsFloat mantissa (exponent - fraction.length) then none
  else some (.float (String.ofList (whole ++ cs.take (cs.length - rest.length))), rest)

/-- The words for the numbers that are not numbers, behind the sign. -/
def specialFloat? : Chars → Option (Value × Chars)
  | 'i' :: 'n' :: 'f' :: rest => some (.float "inf", rest)
  | 'n' :: 'a' :: 'n' :: rest => some (.float "nan", rest)
  | _ => none

def plainNumber? (cs : Chars) : Option (Value × Chars) :=
  match cs with
  | '0' :: 'x' :: rest => basedInteger? 16 (fun c => (hexValue? c).isSome) rest
  | '0' :: 'o' :: rest => basedInteger? 8 (fun c => '0' ≤ c && c ≤ '7') rest
  | '0' :: 'b' :: rest => basedInteger? 2 (fun c => c = '0' || c = '1') rest
  | _ =>
    let (negative, rest) := sign cs
    match specialFloat? rest with
    | some found => some found
    | none => do
      let (whole, rest) ← decimalDigits? rest
      numberTail? negative whole rest

/-- A number of exactly so many digits within bounds. -/
def fixedNumber? (width low high : Nat) (cs : Chars) : Option (Nat × Chars) :=
  let digits := cs.take width
  let n := decimal digits
  if digits.length = width && digits.all isDigit && low ≤ n && n ≤ high then
    some (n, cs.drop width)
  else none

def char? (expected : Char) : Chars → Option Chars
  | c :: rest => if c = expected then some rest else none
  | [] => none

def daysInMonth (year month : Nat) : Nat :=
  if month = 2 then
    if year % 4 = 0 ∧ (year % 100 ≠ 0 ∨ year % 400 = 0) then 29 else 28
  else if month = 4 ∨ month = 6 ∨ month = 9 ∨ month = 11 then 30
  else 31

/-- A date; the outer failure means that there is none, the inner one that it
is wrong. -/
def date? (cs : Chars) : Option (Option Chars) := do
  let (year, rest) ← fixedNumber? 4 0 9999 cs
  let rest ← char? '-' rest
  some <| do
    let (month, rest) ← fixedNumber? 2 1 12 rest
    let rest ← char? '-' rest
    let (_, rest) ← fixedNumber? 2 1 (daysInMonth year month) rest
    some rest

/-- A time of day, with the two failures of a date. -/
def time? (cs : Chars) : Option (Option Chars) := do
  let (_, rest) ← fixedNumber? 2 0 23 cs
  let rest ← char? ':' rest
  some <| do
    let (_, rest) ← fixedNumber? 2 0 59 rest
    let rest ← char? ':' rest
    let (_, rest) ← fixedNumber? 2 0 60 rest
    match rest with
    | '.' :: c :: more => some (if isDigit c then more.dropWhile isDigit else rest)
    | _ => some rest

/-- The distance from universal time, if one follows. -/
def offset? : Chars → Option Chars
  | 'Z' :: rest => some rest
  | 'z' :: rest => some rest
  | c :: rest =>
    if c = '+' ∨ c = '-' then do
      let (_, rest) ← fixedNumber? 2 0 23 rest
      let rest ← char? ':' rest
      let (_, rest) ← fixedNumber? 2 0 59 rest
      some rest
    else some (c :: rest)
  | [] => some []

/-- What follows a date: a time of day and its offset, if a time follows. -/
def dateTail? (cs : Chars) : Option Chars :=
  match cs with
  | c :: rest =>
    if c = 'T' ∨ c = 't' ∨ c = ' ' then
      match time? rest with
      | none => some cs
      | some none => none
      | some (some rest) => offset? rest
    else some cs
  | [] => some []

/-- The value of a date or time that took some of the characters. -/
def dateValue (cs rest : Chars) : Value × Chars :=
  (.dateTime (String.ofList (cs.take (cs.length - rest.length))), rest)

/-- A date, a time of day or a number. -/
def number? (cs : Chars) : Option (Value × Chars) :=
  match date? cs with
  | some none => none
  | some (some rest) => (dateTail? rest).map (dateValue cs)
  | none =>
    match time? cs with
    | some none => none
    | some (some rest) => some (dateValue cs rest)
    | none => plainNumber? cs

end Toml

end TrieStorage
