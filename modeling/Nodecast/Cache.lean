import Nodecast.Entry
import Nodecast.Table

/-!
# The cache

One entry for each object that some node needs.
-/

namespace Nodecast

abbrev Cache := Table Key Entry

namespace Cache

/-- How a step lands in the cache. -/
inductive Action where
  | insert
  | update
  | remove
  | skip
deriving DecidableEq, Repr

def Action.of (hadPrior isEmpty : Bool) : Action :=
  match hadPrior, isEmpty with
  | false, false => .insert
  | false, true => .skip
  | true, false => .update
  | true, true => .remove

/-- Replaces the entry of a known key, and says whether the key was known. -/
def update (c : Cache) (key : Key) (entry : Entry) : Bool × Cache :=
  if c.contains key then (true, c.insert key entry) else (false, c)

/-- An update of a key that vanished meanwhile inserts it again. -/
def apply (c : Cache) (key : Key) (entry : Entry) : Action → Cache
  | .insert | .update => c.insert key entry
  | .remove => c.erase key
  | .skip => c

/-- `hadPrior` tells whether the step was taken from a cached entry. -/
def commit (c : Cache) (key : Key) (hadPrior : Bool) (t : Transition) : List Event × Cache :=
  (t.events key, c.apply key t.entry (.of hadPrior t.isEmpty))

def sortedKeys (c : Cache) : List Key := Key.sort c.keys

def snapshot (c : Cache) : List (Key × Entry) :=
  c.entries.mergeSort fun a b => a.1.le b.1

end Cache

end Nodecast
