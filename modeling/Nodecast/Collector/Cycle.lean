import Nodecast.Collector.State
import Nodecast.Tracked

/-!
# Reconciliation cycles

A cycle brings the nodes up to date about one object. It holds the lock of the key from its first
look at the object to its last event. Until it commits it changes nothing, so that it can be
aborted.
-/

namespace Nodecast

namespace Cycle

/-- How far a cycle has come. -/
inductive Stage where
  /-- It waits for the lock of the key. -/
  | locking
  /-- It waits for the object. -/
  | fetching
  /-- It waits for the nodes of the object. -/
  | resolving (object : Tracked) (prior : Option Entry)
  /-- It is about to commit. -/
  | committing (hadPrior : Bool) (transition : Transition)
  /-- It has committed and owes the rest of its events. -/
  | pushing (events rest : List Event)
  /-- It has found the stream of an event and has not offered the event to it yet. -/
  | offering (events : List Event) (generation : Nat) (e : Event) (rest : List Event)
  | ended (outcome : Except CycleError (List Event))

/-- What brings a cycle forward. -/
inductive Move where
  /-- It goes on with the lock. -/
  | lock (cancelled : Bool)
  | fetch (answer : Except CycleError (Option Tracked))
  | resolve (answer : Except CycleError NodeSet)
  /-- It is cancelled while it waits for the object or for the nodes. -/
  | cancel
  | commit (cancelled : Bool)
  /-- It begins to push the next event. -/
  | push
  | offer
  | finish

end Cycle

structure Cycle where
  key : Key
  /-- The call for the lock of the key. -/
  ticket : Nat
  stage : Cycle.Stage := .locking

namespace Cycle

def outcome? (y : Cycle) : Option (Except CycleError (List Event)) :=
  match y.stage with
  | .ended outcome => some outcome
  | _ => none

end Cycle

namespace Collector

/-! ## Steps -/

def beginCycle (c : Collector) (key : Key) : Cycle × Collector :=
  let (ticket, locks) := c.locks.request key
  ({ key, ticket }, { c with locks })

/-- A cycle ends in any case by giving back the lock. -/
def endCycle (c : Collector) (y : Cycle) (outcome : Except CycleError (List Event)) :
    Cycle × Collector :=
  ({ y with stage := .ended outcome }, c.release y.ticket)

def abortCycle (c : Collector) (y : Cycle) (e : CycleError) : Cycle × Collector :=
  c.endCycle y (.error e)

def cancelCycle (c : Collector) (y : Cycle) : Cycle × Collector :=
  c.abortCycle y (.cancelled c.kind y.key)

/-- The cycle has the lock. -/
def locked (c : Collector) (y : Cycle) (cancelled : Bool) : Cycle × Collector :=
  let c := { c with locks := c.locks.take y.ticket }
  if cancelled then c.cancelCycle y else ({ y with stage := .fetching }, c)

/-- The API answered with the object, with nothing, or not at all. An object whose fields cannot be
serialized counts as no answer. -/
def fetched (c : Collector) (y : Cycle) (answer : Except CycleError (Option Tracked)) :
    Cycle × Collector :=
  match answer, c.cache.get? y.key with
  | .error e, _ => c.abortCycle y e
  | .ok none, none => c.endCycle y (.ok [])
  | .ok none, some entry => ({ y with stage := .committing true entry.retire }, c)
  | .ok (some object), prior => ({ y with stage := .resolving object prior }, c)

/-- The step from the cached entry to what was observed. -/
def transition (kind : Kind) (prior : Option Entry) (object : Tracked) (nodes : NodeSet) :
    Transition :=
  match prior with
  | some entry => entry.advance object.uid object.metadata.fields nodes
  | none => Entry.firstSeen kind object.uid object.metadata.fields nodes

/-- The nodes of the object are known, or could not be found out. -/
def resolved (c : Collector) (y : Cycle) (object : Tracked) (prior : Option Entry)
    (answer : Except CycleError NodeSet) : Cycle × Collector :=
  match answer with
  | .error e => c.abortCycle y e
  | .ok nodes =>
    let t := transition c.kind prior object nodes
    ({ y with stage := .committing prior.isSome t }, c)

/-- The last chance to abort is right before the commit. -/
def commit (c : Collector) (y : Cycle) (hadPrior : Bool) (t : Transition) (cancelled : Bool) :
    Cycle × Collector :=
  if cancelled then c.cancelCycle y
  else
    let (events, cache) := c.cache.commit y.key hadPrior t
    ({ y with stage := .pushing events events }, { c with cache })

/-- An event that is owed is counted, and the stream of its node is looked up. It does not matter to
the cycle whether there is one. -/
def findStream (c : Collector) (hub : Hub Event) (y : Cycle) (events : List Event) (e : Event)
    (rest : List Event) : Cycle × Collector × Hub Event :=
  let c := { c with counts := c.counts.record e.change }
  match hub.connection? e.node with
  | none => ({ y with stage := .pushing events rest }, c, (hub.refuse e.node).2)
  | some (generation, _) => ({ y with stage := .offering events generation e rest }, c, hub)

/-- One step of a cycle in which it pushes nothing. A cycle takes only the moves of its stage, and
goes on from its call for the lock only when the lock is handed over. -/
def moveUnheard (c : Collector) (y : Cycle) (m : Cycle.Move) : Option (Cycle × Collector) :=
  match y.stage, m with
  | .locking, .lock cancelled =>
    if c.locks.stage? y.ticket = some .granted then some (c.locked y cancelled) else none
  | .fetching, .fetch answer => some (c.fetched y answer)
  | .resolving object prior, .resolve answer => some (c.resolved y object prior answer)
  | .fetching, .cancel | .resolving .., .cancel => some (c.cancelCycle y)
  | .committing hadPrior t, .commit cancelled => some (c.commit y hadPrior t cancelled)
  | .pushing events [], .finish => some (c.endCycle y (.ok events))
  | _, _ => none

/-- One step of a cycle. It does not matter to a cycle either what becomes of an event that it
offers to a stream. -/
def moveCycle (c : Collector) (hub : Hub Event) (y : Cycle) (m : Cycle.Move) :
    Option (Cycle × Collector × Hub Event) :=
  match y.stage, m with
  | .pushing events (e :: rest), .push => some (c.findStream hub y events e rest)
  | .offering events generation e rest, .offer =>
    some ({ y with stage := .pushing events rest }, c, (hub.offer e.node generation e).2)
  | _, _ => (c.moveUnheard y m).map fun (y, c) => (y, c, hub)

end Collector

end Nodecast
