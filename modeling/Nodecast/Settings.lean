import Nodecast.Daemon
import Nodecast.Net.Address

/-!
# Settings

All that can be set when a daemon is run.
-/

namespace Nodecast

structure Settings where
  /-- Where the file is that tells how to reach the cluster. -/
  kubeconfig : Option String := none
  /-- The address that the nodes connect to. -/
  listenAddress : Net.Address := ⟨.v4 0 0 0 0, 45000⟩
  /-- What the paths of the event streams begin with. -/
  basePath : String := "/api/v1"
  /-- The kinds to collect, as they were given. -/
  resources : List Kind := Kind.startup
  /-- How many cycles of one kind may go on at a time. -/
  workers : Nat := 4
  /-- How many events are buffered for a node. -/
  queueCapacity : Nat := 1000
  keepAliveSecs : Nat := 15
  /-- The delay before the first retry. -/
  retryBaseMillis : Nat := 5
  /-- No delay before a retry is longer. -/
  retryMaxSecs : Nat := 300
  metricsFile : String := "/logs/metrics.log"
  /-- The time between two reports. -/
  metricsIntervalSecs : Nat := 10
deriving DecidableEq, Repr

namespace Settings

def hubConfig (s : Settings) : Hub.Config :=
  { queueCapacity := s.queueCapacity, keepAlive := .ofSecs s.keepAliveSecs }

def backoff (s : Settings) : Backoff := ⟨.ofMillis s.retryBaseMillis, .ofSecs s.retryMaxSecs⟩

/-- Each kind once, in start-up order. -/
def enabled (s : Settings) : List Kind := Kind.startup.filter fun k => k ∈ s.resources

/-- A daemon that knows nothing yet. -/
def daemon (s : Settings) : Daemon :=
  s.enabled.foldl (fun d kind => d.enable kind s.backoff) { hub := { config := s.hubConfig } }

end Settings

end Nodecast
