import Nodecast.Key
import Nodecast.Table

/-!
# Keyed locks

A lock for each key that somebody holds or waits for. The lock of a key is granted in order of
arrival.
-/

namespace Nodecast

namespace KeyedLock

/-- How far a call for a lock has come. -/
inductive Stage where
  | waiting
  /-- The lock is handed over, but the caller has not gone on yet. -/
  | granted
  /-- The caller has the guard. -/
  | held
deriving DecidableEq, Repr

structure Call where
  key : Key
  lock : Nat
  stage : Stage
deriving DecidableEq, Repr

end KeyedLock

structure KeyedLock where
  /-- The lock that newcomers for a key are sent to. -/
  entries : Table Key Nat := ∅
  /-- All calls that are not over, in order of arrival. -/
  calls : Table Nat KeyedLock.Call := ∅
  nextLock : Nat := 0
  nextTicket : Nat := 0

namespace KeyedLock

def size (l : KeyedLock) : Nat := l.entries.size

def isEmpty (l : KeyedLock) : Bool := l.entries.isEmpty

/-- Whether some call still refers to the lock. -/
def isLive (l : KeyedLock) (lock : Nat) : Bool := l.calls.values.any fun c => c.lock = lock

/-- Whether the lock is handed out. -/
def isTaken (l : KeyedLock) (lock : Nat) : Bool :=
  l.calls.values.any fun c => c.lock = lock && c.stage ≠ .waiting

def stage? (l : KeyedLock) (ticket : Nat) : Option Stage := (l.calls.get? ticket).map Call.stage

/-! ## Steps -/

/-- The lock of the key. An entry whose lock nobody refers to any more is replaced. -/
def lockFor (l : KeyedLock) (key : Key) : Nat × KeyedLock :=
  match (l.entries.get? key).filter l.isLive with
  | some lock => (lock, l)
  | none =>
    (l.nextLock,
      { l with entries := l.entries.insert key l.nextLock, nextLock := l.nextLock + 1 })

/-- A new call joins the line for the lock of its key. -/
def request (l : KeyedLock) (key : Key) : Nat × KeyedLock :=
  let (lock, l) := l.lockFor key
  let stage := if l.isTaken lock then Stage.waiting else .granted
  (l.nextTicket,
    { l with calls := l.calls.insert l.nextTicket ⟨key, lock, stage⟩
             nextTicket := l.nextTicket + 1 })

/-- The caller goes on with the guard. -/
def take (l : KeyedLock) (ticket : Nat) : KeyedLock :=
  match l.calls.get? ticket with
  | some c => if c.stage = .granted then
      { l with calls := l.calls.insert ticket { c with stage := .held } } else l
  | none => l

/-- The lock goes to the call that has waited longest. -/
def handOver (l : KeyedLock) (lock : Nat) : KeyedLock :=
  match l.calls.entries.find? fun p => p.2.lock = lock && p.2.stage = .waiting with
  | some (ticket, c) => { l with calls := l.calls.insert ticket { c with stage := .granted } }
  | none => l

/-- The guard is dropped. The entry goes with the last call that refers to the lock. -/
def release (l : KeyedLock) (ticket : Nat) : KeyedLock :=
  match l.calls.get? ticket with
  | none => l
  | some c =>
    let l := handOver { l with calls := l.calls.erase ticket } c.lock
    if l.isLive c.lock then l else { l with entries := l.entries.erase c.key }

/-- A call is given up before it returned. It leaves its entry behind. -/
def abandon (l : KeyedLock) (ticket : Nat) : KeyedLock :=
  match l.calls.get? ticket with
  | none => l
  | some c =>
    let rest := { l with calls := l.calls.erase ticket }
    if c.stage = .waiting then rest else rest.handOver c.lock

end KeyedLock

end Nodecast
