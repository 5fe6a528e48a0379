import TrieStorage.Store.Partitioned

/-!
# Epoch confirmations

The hub knows the epoch confirmed last and the handlers to be told.  Every
operation answers with the deliveries it causes, in order; a handler that
registers late is told the current epoch at once.
-/

namespace TrieStorage

/-- The current epoch and the registered handlers, in the order of their
registration. -/
structure EpochHub (Handler : Type) where
  current : Option Epoch := none
  handlers : List Handler := []
  deriving Repr

namespace EpochHub

variable {Handler : Type}

/-- A hub at an epoch, or a fresh one. -/
def startingAt (epoch : Option Epoch) : EpochHub Handler := { current := epoch }

/-- Adds a handler; it hears the current epoch, if there is one. -/
def register (hub : EpochHub Handler) (handler : Handler) :
    EpochHub Handler × List (Handler × Epoch) :=
  ({ hub with handlers := hub.handlers ++ [handler] },
    hub.current.toList.map fun epoch => (handler, epoch))

/-- Confirms an epoch to all handlers. -/
def confirm (hub : EpochHub Handler) (epoch : Epoch) :
    EpochHub Handler × List (Handler × Epoch) :=
  ({ hub with current := some epoch }, hub.handlers.map fun handler => (handler, epoch))

end EpochHub

end TrieStorage
