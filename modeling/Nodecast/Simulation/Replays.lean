import Nodecast.Collector.Replay
import Nodecast.Simulation.Site

/-!
# Replays on a clock

A replay waits for locks and for room. A join loop waits for its turn and for joins.
-/

namespace Nodecast.Simulation

structure ReplayTask where
  kind : Kind
  node : String
  token : Nat
  replay : Option Replay := none
  wait : Wait := .past

namespace ReplayTask

def deadline (t : ReplayTask) : Option Deadline := t.wait.deadline

def outcome? (t : ReplayTask) : Option Nat := t.replay >>= Replay.outcome?

def isReady (now : Nat) (s : Site) (t : ReplayTask) : Bool :=
  match t.replay with
  | none => true
  | some r =>
    match r.stage with
    | .listing _ | .visiting | .reaching .. => true
    | .locking _ ticket =>
      (s.collector? t.kind).any fun c => c.locks.stage? ticket = some .granted
    | .pacing _ _ push =>
      s.isCancelled t.token || (s.daemon.hub.resume? push).isSome || t.wait.isOver now
    | .ended => false

/-- The next move of a replay that has begun. -/
def next (now : Nat) (s : Site) (t : ReplayTask) (r : Replay) : Replay.Move :=
  match r.stage with
  | .listing _ | .visiting | .ended => .visit (s.isCancelled t.token)
  | .locking .. => .lock
  | .reaching .. => .reserve
  | .pacing _ _ push =>
    if s.isCancelled t.token then .cancel
    else if t.wait.isOver now && (s.daemon.hub.resume? push).isNone then .expire
    else .resume

/-- One step of a replay that has begun. -/
def advance (now : Nat) (s : Site) (c : Collector) (t : ReplayTask) (r : Replay) : Replay × Site :=
  match c.moveReplay s.daemon.hub r (next now s t r) with
  | some (r, c, hub) => (r, (s.setCollector c).setHub hub)
  | none => (r, s)

/-- A replay begins, and lists what is cached in the order in which the keys came. -/
def begin (s : Site) (c : Collector) (node : String) : Replay :=
  c.cache.keys.foldl
    (fun r key => ((c.moveReplay s.daemon.hub r (.list key)).map Prod.fst).getD r)
    (c.beginReplay node)

def waitFor (m : Moment) (old : Wait) (r : Replay) : Wait :=
  match r.stage, old with
  | .pacing .., .past => .ends (m.after Replay.patience)
  | .pacing .., wait => wait
  | _, _ => .past

def step (m : Moment) (s : Site) (t : ReplayTask) : Site × ReplayTask :=
  match s.collector? t.kind, t.replay with
  | none, _ => (s, t)
  | some c, none => (s, { t with replay := some (begin s c t.node) })
  | some c, some r =>
    let (r, s) := advance m.now s c t r
    (s, { t with replay := some r, wait := waitFor m t.wait r })

end ReplayTask

/-- A loop that replays for every node that joins. -/
structure JoinTask where
  kind : Kind
  token : Nat
  loop : Option Nat := none
  replay : Option ReplayTask := none

namespace JoinTask

def deadline (t : JoinTask) : Option Deadline := t.replay >>= ReplayTask.deadline

/-- Whether the loop may go on, when it has nothing to replay. -/
def isIdleReady (s : Site) (t : JoinTask) (loop : Nat) : Bool :=
  (s.collector? t.kind).any fun c =>
    c.handlesJoins loop &&
      (s.isCancelled t.token || (s.daemon.hub.nextJoin c.listener).isSome)

def isReady (now : Nat) (s : Site) (t : JoinTask) : Bool :=
  match t.loop, t.replay with
  | none, _ => true
  | some loop, none => t.isIdleReady s loop
  | some _, some r => r.isReady now s || r.outcome?.isSome

/-- A loop without a replay stops or takes the next join. None means that it stopped. -/
def next (s : Site) (c : Collector) (t : JoinTask) (loop : Nat) : Site × Option JoinTask :=
  if !c.handlesJoins loop then (s, some t)
  else if s.isCancelled t.token then (s.setCollector (c.leaveLoop loop), none)
  else
    match s.daemon.hub.nextJoin c.listener with
    | none => (s, some t)
    | some (node, hub) =>
      (s.setHub hub, some { t with replay := some { kind := t.kind, node, token := t.token } })

def step (m : Moment) (s : Site) (t : JoinTask) : Site × Option JoinTask :=
  match s.collector? t.kind, t.loop, t.replay with
  | none, _, _ => (s, some t)
  | some c, none, _ =>
    let (loop, c) := c.enterLoop
    (s.setCollector c, some { t with loop := some loop })
  | some c, some loop, none => next s c t loop
  | some _, some _, some r =>
    if r.outcome?.isSome then (s, some { t with replay := none })
    else
      let (s, r) := r.step m s
      (s, some { t with replay := some r })

end JoinTask

end Nodecast.Simulation
