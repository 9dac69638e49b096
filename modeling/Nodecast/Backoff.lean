import Nodecast.Time.Duration

/-!
# Backoff

The delay before a retry doubles with each failure until it reaches a maximum.
-/

namespace Nodecast

structure Backoff where
  base : Duration
  max : Duration
deriving DecidableEq, Repr

namespace Backoff

def standard : Backoff := ⟨.ofMillis 5, .ofSecs 300⟩

instance : Inhabited Backoff := ⟨standard⟩

/-- The doubling stops after this many failures. -/
def lastDoubling : Nat := 31

/-- The delay after so many failures in a row. -/
def delay (b : Backoff) (failures : Nat) : Duration :=
  match b.base.times? (Nat.pow 2 (Nat.min (failures - 1) lastDoubling)) with
  | some d => d.min b.max
  | none => b.max

end Backoff

end Nodecast
