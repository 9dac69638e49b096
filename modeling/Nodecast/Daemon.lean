import Nodecast.Collector.State
import Nodecast.PodIndex.State
import Nodecast.Router

/-!
# The daemon

All state that the tasks of the daemon share.
-/

namespace Nodecast

structure Daemon where
  hub : Hub Event := {}
  index : PodIndex := {}
  router : Router := {}
  /-- One collector for each enabled kind. -/
  collectors : Table Kind Collector := ∅

namespace Daemon

/-- A kind is enabled by giving it a collector and a queue. -/
def enable (d : Daemon) (kind : Kind) (backoff : Backoff) : Daemon :=
  let (c, hub) := Collector.create kind d.hub
  { d with
    hub
    collectors := d.collectors.insert kind c
    router := { d.router with queues := d.router.queues.insert kind { kind, backoff } } }

def cachedKeys (d : Daemon) (kind : Kind) : List Key :=
  match d.collectors.get? kind with
  | some c => c.cache.keys
  | none => []

def setCollector (d : Daemon) (c : Collector) : Daemon :=
  { d with collectors := d.collectors.insert c.kind c }

def setQueue (d : Daemon) (q : WorkQueue) : Daemon :=
  { d with router := { d.router with queues := d.router.queues.insert q.kind q } }

/-- Puts a bare entry into the cache of a kind, if the kind is enabled. -/
def remember (d : Daemon) (kind : Kind) (key : Key) : Daemon :=
  match d.collectors.get? kind with
  | some c => d.setCollector { c with cache := c.cache.insert key ⟨kind, "", "", ∅⟩ }
  | none => d

end Daemon

end Nodecast
