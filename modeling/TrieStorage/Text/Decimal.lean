/-!
# Decimal numbers

Digits are read into a number, however many zeros lead.  Nothing but digits is
accepted, and at least one of them.
-/

namespace TrieStorage

namespace Decimal

def digit? (c : Char) : Option Nat :=
  if '0' ≤ c ∧ c ≤ '9' then some (c.toNat - 48) else none

/-- The number that digits stand for, if there is at least one and all are digits. -/
def number? (digits : List Char) : Option Nat :=
  if digits.isEmpty then none
  else digits.foldlM (fun n c => (digit? c).map fun d => 10 * n + d) 0

end Decimal

end TrieStorage
