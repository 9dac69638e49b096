import Nodecast.KeyedLock
import Nodecast.Schedule

/-!
# Holders of keyed locks

A holder takes the lock of a key and keeps it until it is told to let go.
-/

namespace Nodecast.Simulation

structure Holder where
  key : Key
  ticket : Option Nat := none
  /-- Whether it is told to let go, which may come before it has the lock. -/
  released : Bool := false

namespace Holder

def stage? (l : KeyedLock) (h : Holder) : Option KeyedLock.Stage := h.ticket >>= l.stage?

def isHolding (l : KeyedLock) (h : Holder) : Bool := h.stage? l = some .held

def isReady (l : KeyedLock) (h : Holder) : Bool :=
  match h.ticket, h.stage? l with
  | none, _ | some _, some .granted => true
  | some _, some .held => h.released
  | some _, _ => false

def step (l : KeyedLock) (h : Holder) : Turn KeyedLock Holder :=
  match h.ticket with
  | none =>
    let (ticket, l) := l.request h.key
    ⟨l, some { h with ticket := some ticket }, []⟩
  | some ticket =>
    if h.isHolding l then ⟨l.release ticket, none, []⟩ else ⟨l.take ticket, some h, []⟩

def behavior : Behavior KeyedLock Holder where
  deadline _ := none
  ready _ := isReady
  step _ := step

/-- The holder is stopped. It drops the guard, or leaves the line. -/
def stop (l : KeyedLock) (h : Holder) : KeyedLock :=
  match h.ticket with
  | none => l
  | some ticket => if h.isHolding l then l.release ticket else l.abandon ticket

end Holder

abbrev Holders := Schedule KeyedLock Holder

namespace Holders

def lock (s : Holders) (key : Key) : Nat × Holders :=
  let (i, s) := s.spawn { key }
  (i, s.settle Holder.behavior)

def release (s : Holders) (i : Nat) : Holders :=
  Schedule.settle Holder.behavior (s.modify i fun h => { h with released := true })

def abort (s : Holders) (i : Nat) : Holders :=
  match s.task? i with
  | none => s
  | some h => Schedule.settle Holder.behavior { s.forget i with state := h.stop s.state }

def isHolding (s : Holders) (i : Nat) : Bool := (s.task? i).any (Holder.isHolding s.state)

end Holders

end Nodecast.Simulation
