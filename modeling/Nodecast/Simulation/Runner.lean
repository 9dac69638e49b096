import Nodecast.Schedule
import Nodecast.WorkQueue

/-!
# Runners and retries

A runner starts a call for every key it takes from the queue. When it is cancelled, it takes no
more keys and ends with its last call. A retry adds its key again, unless it is cancelled before.
-/

namespace Nodecast.Simulation

structure Runner where
  workers : Nat
  token : Nat
  run : Option Nat := none

namespace Runner

def isReady (q : WorkQueue) (cancelled : Bool) (r : Runner) : Bool :=
  match r.run with
  | none => true
  | some run => if cancelled then q.canLeave run else q.canStart run

/-- What a step of a runner comes to. -/
inductive Move where
  | entered (run : Nat)
  | started (run : Nat) (key : Key)
  | left
  | stayed

def step (q : WorkQueue) (cancelled : Bool) (r : Runner) : Move × WorkQueue :=
  match r.run with
  | none =>
    let (run, q) := q.enter r.workers
    (.entered run, q)
  | some run =>
    if cancelled then (if q.canLeave run then (.left, q.leave run) else (.stayed, q))
    else
      match q.start run with
      | some (key, q) => (.started run key, q)
      | none => (.stayed, q)

end Runner

structure Retry where
  key : Key
  token : Nat
  deadline : Deadline

namespace Retry

def isReady (now : Nat) (cancelled : Bool) (r : Retry) : Bool := cancelled || r.deadline.isOver now

def step (q : WorkQueue) (cancelled : Bool) (r : Retry) : WorkQueue :=
  if cancelled then q else q.add r.key

end Retry

end Nodecast.Simulation
