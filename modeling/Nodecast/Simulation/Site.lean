import Nodecast.Metrics.Report
import Nodecast.Resolver
import Nodecast.Simulation.Cluster
import Nodecast.Simulation.Server

/-!
# A site

A site is a daemon and the cluster it runs in, with the server between them.
-/

namespace Nodecast.Simulation

/-- How the nodes of an object are found out. -/
inductive Resolving where
  /-- Through the pod index of the daemon. -/
  | byIndex
  /-- By a fixed table. An object that is not in it has no nodes. -/
  | byTable (nodes : Table Key NodeSet)

/-- How the tasks of a run came to an end. -/
inductive Ending where
  | done
  | panicked (message : String)
deriving DecidableEq, Repr

structure Site where
  daemon : Daemon := {}
  cluster : Cluster := {}
  server : Server := {}
  resolving : Resolving := .byIndex
  /-- What the next resolutions go through. -/
  resolutions : Trouble := {}
  /-- Tokens that are cancelled. -/
  cancelled : List Nat := []
  /-- Points that were reported, the latest first. -/
  reported : List Metrics.Point := []
  /-- Runs by token, each with its end if it has come. -/
  runs : Table Nat (Option Ending) := ∅

namespace Site

def isCancelled (s : Site) (token : Nat) : Bool := s.cancelled.contains token

def cancel (s : Site) (token : Nat) : Site := { s with cancelled := token :: s.cancelled }

/-- A task ended by itself. If it belongs to a run that goes on, the whole run ends with it. -/
def endTask (s : Site) (token : Nat) (ending : Ending) : Site :=
  match s.runs.get? token with
  | some none => { s with runs := s.runs.insert token (some ending) }.cancel token
  | _ => s

def collector? (s : Site) (kind : Kind) : Option Collector := s.daemon.collectors.get? kind

def queue? (s : Site) (kind : Kind) : Option WorkQueue := s.daemon.router.queues.get? kind

def setCollector (s : Site) (c : Collector) : Site := { s with daemon := s.daemon.setCollector c }

def setQueue (s : Site) (q : WorkQueue) : Site := { s with daemon := s.daemon.setQueue q }

def setHub (s : Site) (hub : Hub Event) : Site := { s with daemon := { s.daemon with hub } }

/-- A resolution begins. -/
def beginResolution (s : Site) (m : Moment) : Wait × Site :=
  let (wait, resolutions) := s.resolutions.begin m
  (wait, { s with resolutions })

def nodesOf (s : Site) (kind : Kind) (key : Key) (object : Tracked) : Except CycleError NodeSet :=
  match s.resolving with
  | .byIndex => s.daemon.index.nodesOf kind key object
  | .byTable nodes => .ok (nodes.getD key ∅)

/-- A resolution is answered. -/
def resolve (s : Site) (kind : Kind) (key : Key) (object : Tracked) :
    Except CycleError NodeSet × Site :=
  let (failed, resolutions) := s.resolutions.fails
  let answer := if failed then .error (.resolve kind key) else s.nodesOf kind key object
  (answer, { s with resolutions })

/-- A single read is answered. -/
def read (s : Site) (kind : Kind) (key : Key) : Except CycleError (Option Tracked) × Site :=
  let (answer, cluster) := s.cluster.read kind key
  (answer, { s with cluster })

def beginRead (s : Site) (kind : Kind) (m : Moment) : Wait × Site :=
  let (wait, cluster) := s.cluster.beginRead kind m
  (wait, { s with cluster })

/-- All that is to be reported now. -/
def report (s : Site) : Site :=
  { s with reported := (Metrics.report s.daemon).reverse ++ s.reported }

end Site

end Nodecast.Simulation
