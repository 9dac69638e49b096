import Nodecast.Backoff
import Nodecast.Failure
import Nodecast.Table

/-!
# Work queues

Keys wait for a worker in order of arrival. A key that is waiting already is not queued again. A
key that failed is queued again after a delay, if another try may help.
-/

namespace Nodecast

/-- Workers that take keys from a queue. -/
structure WorkQueue.Run where
  workers : Nat
  /-- Keys that are being handled. -/
  active : List Key := []

structure WorkQueue where
  kind : Kind
  backoff : Backoff := .standard
  /-- Keys that count as waiting. -/
  marked : List Key := []
  /-- Keys on their way to a worker, the oldest first. -/
  channel : List Key := []
  /-- How often a key failed since it last ended well, counted in 32 bits. -/
  failures : Table Key UInt32 := ∅
  /-- In order of arrival. Only the first takes keys. -/
  runs : Table Nat WorkQueue.Run := ∅
  nextRun : Nat := 0

namespace WorkQueue

def size (q : WorkQueue) : Nat := q.marked.length

def isEmpty (q : WorkQueue) : Bool := q.marked.isEmpty

def contains (q : WorkQueue) (key : Key) : Bool := key ∈ q.marked

def failureCount (q : WorkQueue) (key : Key) : Nat := (q.failures.getD key 0).toNat

/-! ## Adding a key -/

/-- The first half of adding a key. It says whether the second half is to follow. -/
def mark (q : WorkQueue) (key : Key) : Bool × WorkQueue :=
  if q.contains key then (false, q) else (true, { q with marked := q.marked ++ [key] })

/-- The second half of adding a key. -/
def send (q : WorkQueue) (key : Key) : WorkQueue := { q with channel := q.channel ++ [key] }

def add (q : WorkQueue) (key : Key) : WorkQueue :=
  match q.mark key with
  | (true, q) => q.send key
  | (false, q) => q

/-! ## Picking a key -/

/-- The first half of picking a key. -/
def receive (q : WorkQueue) : Option (Key × WorkQueue) :=
  match q.channel with
  | [] => none
  | key :: rest => some (key, { q with channel := rest })

/-- The second half of picking a key. From here on it may be added again. -/
def unmark (q : WorkQueue) (key : Key) : WorkQueue :=
  { q with marked := q.marked.filter (· ≠ key) }

def pick (q : WorkQueue) : Option (Key × WorkQueue) :=
  q.receive.map fun (key, q) => (key, q.unmark key)

/-- Takes all keys off the queue. -/
def drain (q : WorkQueue) : List Key × WorkQueue :=
  (q.channel, { q with marked := [], channel := [] })

/-! ## The end of a call -/

/-- Counts what came of a key. A failure worth another try answers the delay before it. The count
starts over where 32 bits end. -/
def finish (q : WorkQueue) (key : Key) (outcome : Except CycleError Unit) :
    Option Duration × WorkQueue :=
  match outcome with
  | .ok () => (none, { q with failures := q.failures.erase key })
  | .error e =>
    if e.isRetryable then
      let count := q.failures.getD key 0 + 1
      (some (q.backoff.delay count.toNat), { q with failures := q.failures.insert key count })
    else (none, { q with failures := q.failures.erase key })

/-! ## Runs -/

/-- At least one worker is needed to get anywhere. -/
def enter (q : WorkQueue) (workers : Nat) : Nat × WorkQueue :=
  (q.nextRun,
    { q with runs := q.runs.insert q.nextRun { workers := max workers 1 }
             nextRun := q.nextRun + 1 })

def leave (q : WorkQueue) (run : Nat) : WorkQueue := { q with runs := q.runs.erase run }

/-- The run, if it is its turn to take keys. -/
def running? (q : WorkQueue) (run : Nat) : Option Run :=
  if q.runs.keys.head? = some run then q.runs.get? run else none

/-- Whether a worker of the run is free and a key is there. -/
def canStart (q : WorkQueue) (run : Nat) : Bool :=
  (q.running? run).any fun r => r.active.length < r.workers && !q.channel.isEmpty

/-- A free worker takes the oldest key. -/
def start (q : WorkQueue) (run : Nat) : Option (Key × WorkQueue) := do
  let r ← q.running? run
  guard (r.active.length < r.workers)
  let (key, q) ← q.pick
  return (key, { q with runs := q.runs.insert run { r with active := r.active ++ [key] } })

/-- A worker is done with a key. -/
def complete (q : WorkQueue) (run : Nat) (key : Key) (outcome : Except CycleError Unit) :
    Option Duration × WorkQueue :=
  let (delay, q) := q.finish key outcome
  (delay, { q with runs := q.runs.modify run fun r => { r with active := r.active.erase key } })

/-- Whether all calls of a run are over and it is its turn. -/
def canLeave (q : WorkQueue) (run : Nat) : Bool := (q.running? run).any fun r => r.active.isEmpty

end WorkQueue

end Nodecast
