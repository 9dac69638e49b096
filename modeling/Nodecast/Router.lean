import Nodecast.PodIndex.Buckets
import Nodecast.WorkQueue

/-!
# Routing triggers

The router knows the work queue of every enabled kind, and which Services each namespace has.
-/

namespace Nodecast

structure Router where
  queues : Table Kind WorkQueue := ∅
  /-- Names of Services by namespace. -/
  services : Buckets String := ∅

namespace Router

def isEnabled (r : Router) (kind : Kind) : Bool := r.queues.contains kind

/-- Triggers for kinds that are not enabled are ignored. -/
def trigger (r : Router) (kind : Kind) (key : Key) : Router :=
  { r with queues := r.queues.modify kind fun q => q.add key }

def registerService (r : Router) (key : Key) : Router :=
  { r with services := r.services.link key.space key.name }

def unregisterService (r : Router) (key : Key) : Router :=
  { r with services := r.services.unlink key.space key.name }

def clearServices (r : Router) : Router := { r with services := ∅ }

/-- The known Services of a namespace in order. -/
def servicesIn (r : Router) (space : String) : List String := (r.services.under space).mergeSort

/-- The kinds whose queues hold keys, with those keys, which are taken off. -/
def drain (r : Router) : List (Kind × List Key) × Router :=
  let drained := r.queues.entries.map fun (kind, q) => (kind, q.drain)
  ((drained.map fun (kind, keys, _) => (kind, keys)).filter fun (_, keys) => !keys.isEmpty,
    { r with queues := .ofList (drained.map fun (kind, _, q) => (kind, q)) })

end Router

end Nodecast
