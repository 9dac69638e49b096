import Nodecast.Cache
import Nodecast.Hub.State
import Nodecast.KeyedLock

/-!
# Collectors

A collector keeps what the nodes were told about the objects of one kind.
-/

namespace Nodecast

/-- How many events of each sort were generated. -/
structure Counts where
  added : Nat := 0
  modified : Nat := 0
  deleted : Nat := 0
deriving DecidableEq, Repr

def Counts.record (c : Counts) : Change → Counts
  | .added => { c with added := c.added + 1 }
  | .modified => { c with modified := c.modified + 1 }
  | .deleted => { c with deleted := c.deleted + 1 }

/-- In the order in which changes sort. -/
def Counts.toList (c : Counts) : List Nat := [c.added, c.modified, c.deleted]

structure Collector where
  kind : Kind
  /-- Where the hub announces joins to this collector. -/
  listener : Nat
  cache : Cache := ∅
  locks : KeyedLock := {}
  counts : Counts := {}
  /-- Loops that want to handle joins, in order of arrival. Only the first does. -/
  joinLoops : List Nat := []
  nextLoop : Nat := 0

namespace Collector

/-- Joins are announced to a collector from the start. -/
def create (kind : Kind) (hub : Hub Event) : Collector × Hub Event :=
  let (listener, hub) := hub.listen
  ({ kind, listener }, hub)

def release (c : Collector) (ticket : Nat) : Collector :=
  { c with locks := c.locks.release ticket }

def enterLoop (c : Collector) : Nat × Collector :=
  (c.nextLoop, { c with joinLoops := c.joinLoops ++ [c.nextLoop], nextLoop := c.nextLoop + 1 })

def leaveLoop (c : Collector) (loop : Nat) : Collector :=
  { c with joinLoops := c.joinLoops.filter (· ≠ loop) }

def handlesJoins (c : Collector) (loop : Nat) : Bool := c.joinLoops.head? = some loop

end Collector

end Nodecast
