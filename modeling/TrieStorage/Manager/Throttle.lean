/-!
# The throttle

A number of slots.  Taking one is never refused: whoever takes it asks first
whether one is free.  The highest number ever in use is remembered.
-/

namespace TrieStorage

/-- Slots for things that run at the same time. -/
structure Throttle where
  max : Nat
  current : Nat := 0
  peak : Nat := 0
  deriving DecidableEq, Repr

namespace Throttle

/-- Whether a slot is free. -/
def canProcess (t : Throttle) : Bool := t.current < t.max

/-- Takes a slot. -/
def start (t : Throttle) : Throttle :=
  { t with current := t.current + 1, peak := Nat.max t.peak (t.current + 1) }

/-- Gives a slot back; with none taken this does nothing. -/
def finish (t : Throttle) : Throttle := { t with current := t.current - 1 }

def tryStart (t : Throttle) : Throttle := if t.canProcess then t.start else t

end Throttle

end TrieStorage
