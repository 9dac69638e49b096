import Nodecast.Collector.Cycle
import Nodecast.Simulation.Site

/-!
# Cycles on a clock

A cycle waits for its lock, for the object and for the nodes. The last two waits end early when it
is cancelled.
-/

namespace Nodecast.Simulation

structure CycleTask where
  kind : Kind
  key : Key
  token : Nat
  cycle : Option Cycle := none
  wait : Wait := .past

namespace CycleTask

def deadline (t : CycleTask) : Option Deadline := t.wait.deadline

def outcome? (t : CycleTask) : Option (Except CycleError (List Event)) :=
  t.cycle >>= Cycle.outcome?

def isReady (now : Nat) (s : Site) (t : CycleTask) : Bool :=
  match t.cycle with
  | none => true
  | some y =>
    match y.stage with
    | .locking => (s.collector? t.kind).any fun c => c.locks.stage? y.ticket = some .granted
    | .fetching | .resolving .. => s.isCancelled t.token || t.wait.isOver now
    | .committing .. | .pushing .. | .offering .. => true
    | .ended _ => false

/-- The next wait of a cycle that has come to a stage of waiting. -/
def beginWait (m : Moment) (s : Site) (t : CycleTask) (y : Cycle) : Wait × Site :=
  match y.stage with
  | .fetching => s.beginRead t.kind m
  | .resolving .. => s.beginResolution m
  | _ => (.past, s)

/-- The next move of a cycle that has begun. What it waits for is read off the site. -/
def next (s : Site) (t : CycleTask) (y : Cycle) : Cycle.Move × Site :=
  let cancelled := s.isCancelled t.token
  match y.stage with
  | .locking => (.lock cancelled, s)
  | .fetching =>
    if cancelled then (.cancel, s)
    else
      let (answer, s) := s.read t.kind t.key
      (.fetch answer, s)
  | .resolving object _ =>
    if cancelled then (.cancel, s)
    else
      let (answer, s) := s.resolve t.kind t.key object
      (.resolve answer, s)
  | .committing .. => (.commit cancelled, s)
  | .pushing _ (_ :: _) => (.push, s)
  | .offering .. => (.offer, s)
  | .pushing _ [] | .ended _ => (.finish, s)

/-- One step of a cycle that has begun. -/
def advance (s : Site) (c : Collector) (t : CycleTask) (y : Cycle) : Cycle × Site :=
  let (move, s) := next s t y
  match c.moveCycle s.daemon.hub y move with
  | some (y, c, hub) => (y, (s.setCollector c).setHub hub)
  | none => (y, s)

def step (m : Moment) (s : Site) (t : CycleTask) : Site × CycleTask :=
  match s.collector? t.kind, t.cycle with
  | none, _ => (s, t)
  | some c, none =>
    let (y, c) := c.beginCycle t.key
    (s.setCollector c, { t with cycle := some y })
  | some c, some y =>
    let (y, s) := advance s c t y
    let (wait, s) := beginWait m s t y
    (s, { t with cycle := some y, wait })

end CycleTask

end Nodecast.Simulation
