import Nodecast.Proofs.Queues
import Nodecast.Proofs.System.Runs

/-!
# A kind that is watched

The objects of one kind come and go. Notices tell of them, workers take the keys that wait, and each
cycle asks the API for its object. A watch that is interrupted loses the notices that are not
delivered yet and goes on from the list of all objects.
-/

namespace Nodecast

/-! ## What cycles have seen -/

namespace Cycle

/-- The cycle is still to look at its object. -/
def isAhead (y : Cycle) : Bool :=
  match y.stage with
  | .locking | .fetching => true
  | _ => false

/-- What the cycle is going to leave in the cache. -/
def brings? (y : Cycle) (kind : Kind) (nodes : Key → Tracked → NodeSet) : Option (Option Entry) :=
  match y.stage with
  | .resolving object prior =>
    some (Collector.transition kind prior object (nodes y.key object)).left
  | .committing _ t => some t.left
  | _ => none

end Cycle

/-- The cycle of the kind that a task is. -/
def Task.cycle? (t : Task) (kind : Kind) : Option Cycle :=
  match t.activity with
  | .cycle y => if t.kind = kind then some y else none
  | .replay _ => none

/-! ## The state -/

structure Watched extends World where
  kind : Kind
  /-- The nodes that need an object. -/
  nodes : Key → Tracked → NodeSet
  api : Table Key Tracked := ∅
  /-- Notices that are not delivered yet, the oldest first. -/
  feed : List Notice := []
  /-- Keys that failed and are to be tried again. -/
  retries : List Key := []
  /-- Objects whose end nobody is going to notice, since the last restart. -/
  missed : List Key := []

namespace Watched

/-- What the cache ought to hold under a key. -/
def wanted (w : Watched) (key : Key) : Option Entry :=
  (w.api.get? key).map fun o => ⟨w.kind, o.uid, o.metadata.fields, w.nodes key o⟩

def cached (w : Watched) (key : Key) : Option Entry :=
  (w.collectors.get? w.kind).bind fun c => c.cache.get? key

def cycle? (w : Watched) (i : Nat) : Option Cycle := (w.tasks.get? i).bind fun t => t.cycle? w.kind

def cycles (w : Watched) : List Cycle := w.tasks.values.filterMap fun t => t.cycle? w.kind

/-- Somebody is going to look at the object. -/
def looks (w : Watched) (key : Key) : Bool :=
  w.feed.any (fun n => n.about? = some key) || w.router.waits w.kind key ||
    w.retries.contains key || w.cycles.any fun y => y.key = key && y.isAhead

/-- A cycle is going to leave the object in the cache. -/
def carries (w : Watched) (y : Cycle) : Bool := (y.brings? w.kind w.nodes).any Option.isSome

/-- Objects that are gone, are going to be cached all the same, and that nobody is going to look
at any more. -/
def overlooked (w : Watched) : List Key :=
  (w.cycles.filter fun y =>
    w.carries y && !w.api.contains y.key && !w.looks y.key).map Cycle.key

/-- No key waits, no cycle is under way, nothing is to be tried again, and every notice is
delivered. -/
def isQuiet (w : Watched) : Bool :=
  (w.router.queues.get? w.kind).all WorkQueue.isEmpty &&
    w.cycles.all (fun y => y.outcome?.isSome) && w.retries.isEmpty && w.feed.isEmpty

/-! ## Steps -/

def withQueue (w : Watched) (q : WorkQueue) : Watched :=
  { w with router := { w.router with queues := w.router.queues.insert w.kind q } }

def react (w : Watched) (n : Notice) : Watched :=
  { w with toDaemon := Reaction.perform w.toDaemon (n.plainReactions w.kind) }

def within (w : Watched) (a : World.Action) : Option Watched :=
  (w.toWorld.step a).map fun v => { w with toWorld := v }

/-- The next move of a cycle. Only its request to the API may fail. -/
def move? (w : Watched) (y : Cycle) (fails : Bool) : Option Cycle.Move :=
  match y.stage, fails with
  | .locking, false => some (.lock false)
  | .fetching, false => some (.fetch (.ok (w.api.get? y.key)))
  | .fetching, true => some (.fetch (.error (.fetch w.kind y.key)))
  | .resolving object _, false => some (.resolve (.ok (w.nodes y.key object)))
  | .committing .., false => some (.commit false)
  | .pushing _ (_ :: _), false => some .push
  | .offering .., false => some .offer
  | .pushing _ [], false => some .finish
  | _, _ => none

/-- The queue is told what came of a cycle. -/
def heed (w : Watched) (y : Cycle) : Watched :=
  match y.outcome?, w.router.queues.get? w.kind with
  | some outcome, some q =>
    let (delay, q) := q.finish y.key (outcome.map fun _ => ())
    { w.withQueue q with retries := w.retries ++ (delay.map fun _ => y.key).toList }
  | _, _ => w

inductive Action where
  | put (object : Tracked)
  /-- An object is deleted. It is told of as it was at the end. -/
  | remove (object : Tracked)
  | deliver
  /-- The watch is interrupted and begins anew. -/
  | restart
  | take
  | go (task : Nat) (fails : Bool)
  /-- The time has come to try a key again. -/
  | retry (key : Key)
  /-- What joins, replays and subscribers do meanwhile. -/
  | beside (a : World.Action)

def step (w : Watched) : Action → Option Watched
  | .put object => do
    let key ← object.metadata.key?
    return { w with
      api := w.api.insert key object
      feed := w.feed ++ [.applied object]
      missed := w.missed.filter (· ≠ key) }
  | .remove object => do
    let key ← object.metadata.key?
    if w.api.contains key then
      some { w with
        api := w.api.erase key
        feed := w.feed ++ [.deleted object]
        missed := w.missed.filter (· ≠ key) }
    else none
  | .deliver =>
    match w.feed with
    | [] => none
    | n :: rest => some { w.react n with feed := rest }
  | .restart =>
    let w := { w.react (.restarted w.api.values) with feed := [] }
    some { w with missed := w.overlooked }
  | .take => do
    let q ← w.router.queues.get? w.kind
    let (key, q) ← q.pick
    (w.withQueue q).within (.reconcile w.kind key)
  | .go i fails => do
    let y ← w.cycle? i
    let m ← w.move? y fails
    let w ← w.within (.cycle i m)
    let y ← w.cycle? i
    return w.heed y
  | .retry key =>
    if key ∈ w.retries then
      some { w with router := w.router.trigger w.kind key, retries := w.retries.erase key }
    else none
  | .beside a =>
    match a with
    | .join _ | .replay .. | .wish _ => w.within a
    | .reconcile .. | .cycle .. => none

def start (s : Settings) (kind : Kind) (nodes : Key → Tracked → NodeSet) : Watched :=
  { World.start s with kind, nodes }

/-- The kind is enabled, and every object is needed somewhere. -/
inductive Reachable : Watched → Prop where
  | start (s : Settings) {kind : Kind} {nodes : Key → Tracked → NodeSet} :
      kind ∈ s.enabled → (∀ key o, (nodes key o).isEmpty = false) →
      Reachable (start s kind nodes)
  | step {w w' : Watched} (a : Action) : Reachable w → w.step a = some w' → Reachable w'

def run (w : Watched) (as : List Action) : Option Watched := as.foldlM step w

theorem Reachable.run {w w' : Watched} (h : Reachable w) {as : List Action}
    (hr : w.run as = some w') : Reachable w' :=
  foldlM_keeps h hr fun a _ _ _ h hs => .step a h hs

end Watched

end Nodecast
