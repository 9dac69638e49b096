/-!
# Durations

Whole seconds in 64 bits and the nanoseconds of the last second.
-/

namespace Nodecast

structure Duration where
  secs : Nat
  nanos : Nat
deriving DecidableEq, Repr, Inhabited

namespace Duration

def nanosPerSec : Nat := 1000000000

/-- The seconds of a duration stay below this. -/
def secsBound : Nat := Nat.pow 2 64

def zero : Duration := ⟨0, 0⟩

/-- The length in nanoseconds. -/
def total (d : Duration) : Nat := d.secs * nanosPerSec + d.nanos

def isZero (d : Duration) : Bool := d.secs = 0 && d.nanos = 0

def ofSecs (s : Nat) : Duration := ⟨s, 0⟩

def ofMillis (ms : Nat) : Duration := ⟨ms / 1000, ms % 1000 * 1000000⟩

/-- Whole milliseconds, rounded up. -/
def millis (d : Duration) : Nat := (d.total + 999999) / 1000000

def le (a b : Duration) : Bool := a.secs < b.secs || (a.secs = b.secs && a.nanos ≤ b.nanos)

def min (a b : Duration) : Duration := if a.le b then a else b

/-- Carries whole seconds out of the nanoseconds. A product that does not fit is none. -/
def times? (d : Duration) (n : Nat) : Option Duration :=
  let nanos := d.nanos * n
  let secs := d.secs * n + nanos / nanosPerSec
  if secs < secsBound then some ⟨secs, nanos % nanosPerSec⟩ else none

end Duration

end Nodecast
