/-!
# TOML values

What a document says, together with how each table came about, because that
decides who may still add to it.
-/

namespace TrieStorage

namespace Toml

/-- How a table came about. -/
inductive TableForm where
  /-- Written between braces; nobody adds to it. -/
  | inline
  /-- Opened by its own header. -/
  | header
  /-- Needed by the header of a table below it. -/
  | implied
  /-- Needed by a dotted key. -/
  | dotted
  deriving DecidableEq, Repr

/-- A value of a document. -/
inductive Value where
  | string (text : String)
  | integer (number : Int)
  | float (literal : String)
  | boolean (truth : Bool)
  | dateTime (literal : String)
  | array (items : List Value)
  | table (form : TableForm) (fields : List (String × Value))
  /-- Tables opened by double-bracket headers of one name. -/
  | tables (elements : List Value)
  deriving Repr

/-- The entries of a table, in the order in which they were written. -/
abbrev Fields := List (String × Value)

namespace Fields

def get? (fields : Fields) (key : String) : Option Value :=
  (fields.find? fun f => f.1 = key).map Prod.snd

/-- The fields with a value under a key, in the place of the earlier one. -/
def set (fields : Fields) (key : String) (value : Value) : Fields :=
  if (fields.get? key).isSome then
    fields.map fun f => if f.1 = key then (key, value) else f
  else fields ++ [(key, value)]

def erase (fields : Fields) (key : String) : Fields := fields.filter fun f => f.1 ≠ key

end Fields

end Toml

end TrieStorage
