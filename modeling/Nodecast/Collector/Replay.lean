import Nodecast.Collector.State

/-!
# Replays

A node that joins is told all that the cache holds for it. Each entry is read and sent under the
lock of its key, so that it never overtakes an event of an earlier cycle.
-/

namespace Nodecast

namespace Replay

/-- How far a replay has come. -/
inductive Stage where
  /-- It lists the keys that are cached, one by one. Those that were cached from the beginning and
  are not listed yet are still to come. -/
  | listing (unseen : List Key)
  /-- It is about to go to the next key. -/
  | visiting
  | locking (key : Key) (ticket : Nat)
  /-- It has found the stream of its node and has not asked it for room yet. -/
  | reaching (key : Key) (ticket : Nat) (generation : Nat) (e : Event)
  /-- It waits for room in the stream. -/
  | pacing (key : Key) (ticket : Nat) (push : Hub.PacedRef)
  | ended
deriving DecidableEq, Repr

/-- What brings a replay forward. -/
inductive Move where
  /-- It comes to a key as it lists what is cached. -/
  | list (key : Key)
  | visit (cancelled : Bool)
  /-- It goes on with the lock. -/
  | lock
  /-- It asks for room in the stream. -/
  | reserve
  /-- Its push is over, with or without success. -/
  | resume
  /-- The time of its push is up. -/
  | expire
  /-- It is cancelled before it looks for the stream or while it waits for room. -/
  | cancel
deriving DecidableEq, Repr

end Replay

structure Replay where
  node : String
  /-- Keys that were listed and are still to visit. -/
  rest : List Key := []
  /-- How many entries were sent. -/
  count : Nat := 0
  stage : Replay.Stage := .visiting

namespace Replay

/-- How long a replay waits for room, in milliseconds. -/
def patience : Nat := 10000

def outcome? (r : Replay) : Option Nat :=
  match r.stage with
  | .ended => some r.count
  | _ => none

end Replay

namespace Collector

def beginReplay (c : Collector) (node : String) : Replay :=
  { node, stage := .listing c.cache.keys }

/-- Keys are listed in any order, each once. One that goes before it is come to is passed over, and
one that is new may be listed too. -/
def list? (c : Collector) (r : Replay) (unseen : List Key) (key : Key) : Option Replay :=
  match c.cache.get? key with
  | some _ =>
    if key ∈ r.rest then none
    else some { r with rest := r.rest ++ [key], stage := .listing (unseen.erase key) }
  | none => if key ∈ unseen then some { r with stage := .listing (unseen.erase key) } else none

/-- The replay goes on to the next key, if there is one. -/
def visit (c : Collector) (r : Replay) (cancelled : Bool) : Replay × Collector :=
  match cancelled, r.rest with
  | false, key :: rest =>
    let (ticket, locks) := c.locks.request key
    ({ r with rest, stage := .locking key ticket }, { c with locks })
  | _, _ => ({ r with stage := .ended }, c)

/-- What the cache holds under the key for the node of the replay. -/
def replayed? (c : Collector) (r : Replay) (key : Key) : Option Event :=
  ((c.cache.get? key).filter fun e => e.isAssociatedWith r.node).map fun e =>
    e.eventFor key r.node .added

/-- The replay has the lock of a key. For what is cached for the node the stream is looked up. -/
def replayLocked (c : Collector) (hub : Hub Event) (r : Replay) (key : Key) (ticket : Nat) :
    Replay × Collector × Hub Event :=
  let c := { c with locks := c.locks.take ticket }
  match c.replayed? r key with
  | none => ({ r with stage := .visiting }, c.release ticket, hub)
  | some e =>
    match hub.connection? e.node with
    | none => ({ r with stage := .ended }, c.release ticket, (hub.refuse e.node).2)
    | some (generation, _) => ({ r with stage := .reaching key ticket generation e }, c, hub)

/-- A push of the replay is over. If it failed, the node is gone, and its next join starts a new
replay. -/
def replayPushed (c : Collector) (r : Replay) (ticket : Nat) (outcome : Hub.Outcome) :
    Replay × Collector :=
  match outcome with
  | .ok () => ({ r with count := r.count + 1, stage := .visiting }, c.release ticket)
  | .error _ => ({ r with stage := .ended }, c.release ticket)

/-- A replay is cancelled while it waits for room. -/
def replayCancelled (c : Collector) (hub : Hub Event) (r : Replay) (ticket : Nat)
    (push : Hub.PacedRef) : Replay × Collector × Hub Event :=
  ({ r with stage := .ended }, c.release ticket, hub.abandon push)

/-- A replay that has the lock and has something to tell is cancelled before it looks for the
stream. -/
def replayStopped (c : Collector) (r : Replay) (ticket : Nat) : Replay × Collector :=
  ({ r with stage := .ended }, release { c with locks := c.locks.take ticket } ticket)

/-- One step of a replay. A replay takes only the moves of its stage. Room that came in time counts
even if the time is up. -/
def moveReplay (c : Collector) (hub : Hub Event) (r : Replay) (m : Replay.Move) :
    Option (Replay × Collector × Hub Event) :=
  match r.stage, m with
  | .listing unseen, .list key => (c.list? r unseen key).map fun r => (r, c, hub)
  | .listing [], .visit cancelled | .visiting, .visit cancelled =>
    let (r, c) := c.visit r cancelled
    some (r, c, hub)
  | .locking key ticket, .lock =>
    if c.locks.stage? ticket = some .granted then some (c.replayLocked hub r key ticket) else none
  | .locking key ticket, .cancel =>
    if c.locks.stage? ticket = some .granted ∧ (c.replayed? r key).isSome then
      let (r, c) := c.replayStopped r ticket
      some (r, c, hub)
    else none
  | .reaching key ticket generation e, .reserve =>
    let (push, hub) := hub.reserve generation e
    some ({ r with stage := .pacing key ticket push }, c, hub)
  | .pacing _ ticket push, .resume =>
    (hub.resume? push).map fun (outcome, hub) =>
      let (r, c) := c.replayPushed r ticket outcome
      (r, c, hub)
  | .pacing _ ticket push, .expire =>
    if (hub.resume? push).isSome then none
    else
      let (outcome, hub) := hub.expire push
      let (r, c) := c.replayPushed r ticket outcome
      some (r, c, hub)
  | .pacing _ ticket push, .cancel => some (c.replayCancelled hub r ticket push)
  | _, _ => none

end Collector

end Nodecast
