import Nodecast.Simulation.Runner

/-!
# A work queue with scripted calls

Calls for a key follow the plans that are written for it, in order. The last plan repeats.
-/

namespace Nodecast.Simulation

/-- A call takes some time and then ends. -/
structure Plan where
  wait : Option Nat := none
  outcome : Except CycleError Unit := .ok ()

/-- The start or the end of a call. -/
structure Mark where
  time : Nat
  key : Key
  attempt : Nat
deriving DecidableEq

def Mark.le (a b : Mark) : Bool :=
  a.time < b.time || (a.time = b.time &&
    ((a.key ≠ b.key && a.key.le b.key) || (a.key = b.key && a.attempt ≤ b.attempt)))

structure Script where
  queue : WorkQueue
  /-- Plans by the text that a key is displayed as. -/
  plans : Table String (List Plan) := ∅
  attempts : Table Key Nat := ∅
  cancelled : List Nat := []
  token : Nat := 0
  starts : List Mark := []
  ends : List Mark := []

def Script.planFor (s : Script) (key : Key) (attempt : Nat) : Plan :=
  let plans := s.plans.getD key.display []
  (plans[attempt - 1]?.or plans.getLast?).getD {}

namespace Script

inductive Task where
  | runner (r : Runner)
  | fresh (run : Nat) (key : Key) (token : Nat)
  | call (run : Nat) (key : Key) (token attempt : Nat) (plan : Plan) (deadline : Option Deadline)
  | delayed (key : Key) (token : Nat) (delay : Nat)
  | retry (r : Retry)

namespace Task

def deadline : Task → Option Deadline
  | call _ _ _ _ _ d => d
  | retry r => some r.deadline
  | _ => none

def isReady (now : Nat) (s : Script) : Task → Bool
  | runner r => r.isReady s.queue (s.cancelled.contains r.token)
  | call _ _ _ _ _ d => d.all fun d => d.isOver now
  | retry r => r.isReady now (s.cancelled.contains r.token)
  | fresh .. | delayed .. => true

def step (m : Moment) (s : Script) : Task → Turn Script Task
  | runner r =>
    let (move, queue) := r.step s.queue (s.cancelled.contains r.token)
    let s := { s with queue }
    match move with
    | .entered run => ⟨s, some (.runner { r with run := some run }), []⟩
    | .started run key => ⟨s, some (.runner r), [.fresh run key r.token]⟩
    | .left => ⟨s, none, []⟩
    | .stayed => ⟨s, some (.runner r), []⟩
  | fresh run key token =>
    let attempt := s.attempts.getD key 0 + 1
    let plan := s.planFor key attempt
    ⟨{ s with attempts := s.attempts.insert key attempt
              starts := s.starts ++ [⟨m.now, key, attempt⟩] },
      some (.call run key token attempt plan (plan.wait.map m.after)), []⟩
  | call run key token attempt plan _ =>
    let (delay, queue) := s.queue.complete run key plan.outcome
    ⟨{ s with queue, ends := s.ends ++ [⟨m.now, key, attempt⟩] },
      delay.map fun d => .delayed key token d.millis, []⟩
  | delayed key token delay => ⟨s, some (.retry ⟨key, token, m.after delay⟩), []⟩
  | retry r => ⟨{ s with queue := r.step s.queue (s.cancelled.contains r.token) }, none, []⟩

end Task

def behavior : Behavior Script Task := ⟨Task.deadline, Task.isReady, Task.step⟩

end Script

/-- A scripted queue on a clock. -/
abbrev ScriptedQueue := Schedule Script Script.Task

namespace ScriptedQueue

def settle (s : ScriptedQueue) : ScriptedQueue := Schedule.settle Script.behavior s

def add (s : ScriptedQueue) (key : Key) : ScriptedQueue :=
  settle { s with state := { s.state with queue := s.state.queue.add key } }

/-- A new run with a token of its own. -/
def run (s : ScriptedQueue) (workers : Nat) : Nat × ScriptedQueue :=
  let token := s.state.token + 1
  let (task, s) := Schedule.spawn { s with state := { s.state with token } }
    (.runner { workers, token })
  (task, settle s)

/-- Cancels the latest run. -/
def cancel (s : ScriptedQueue) : ScriptedQueue :=
  settle { s with state := { s.state with cancelled := s.state.token :: s.state.cancelled } }

def advance (s : ScriptedQueue) (wait : Nat) : ScriptedQueue :=
  Schedule.advance Script.behavior s wait

/-- The starts and ends since the last look. -/
def takeMarks (s : ScriptedQueue) : (List Mark × List Mark) × ScriptedQueue :=
  ((s.state.starts, s.state.ends.mergeSort Mark.le),
    { s with state := { s.state with starts := [], ends := [] } })

end ScriptedQueue

end Nodecast.Simulation
