import Nodecast.Simulation.Jobs
import Nodecast.Simulation.Subscribed

/-!
# Sessions

A session drives a site from outside. It knows subscriptions and jobs by names.
-/

namespace Nodecast.Simulation

structure Session where
  run : SiteRun
  subscriptions : Table String Nat := ∅
  jobs : Table String Nat := ∅
  /-- The token that new jobs get. -/
  token : Nat := 0
  nextToken : Nat := 1

namespace Session

/-! ## The site -/

def site (s : Session) : Site := s.run.state

def daemon (s : Session) : Daemon := s.site.daemon

def hub (s : Session) : Hub Event := s.daemon.hub

def change (s : Session) (f : Site → Site) : Session := { s with run := s.run.change f }

def changeDaemon (s : Session) (f : Daemon → Daemon) : Session :=
  s.change fun site => { site with daemon := f site.daemon }

def changeCluster (s : Session) (f : Cluster → Cluster) : Session :=
  s.change fun site => { site with cluster := f site.cluster }

def changeServer (s : Session) (f : Server → Server) : Session :=
  s.change fun site => { site with server := f site.server }

def setHub (s : Session) (h : Hub Event) : Session := s.change fun site => site.setHub h

def subscribed (s : Session) : Subscribed Event := { hub := s.hub, names := s.subscriptions }

def setSubscribed (s : Session) (b : Subscribed Event) : Session :=
  { s.setHub b.hub with subscriptions := b.names }

def advance (s : Session) (wait : Nat) : Session := { s with run := s.run.advance wait }

/-- A complete list of Pods comes to the index. -/
def replacePods (s : Session) (pods : List Tracked) : Session :=
  s.changeDaemon fun d =>
    { d with index := (d.index.replacePods (pods.filterMap PodRecord.ofTracked?)).2 }

/-- A complete list of ReplicaSets comes to the index. -/
def replaceReplicaSets (s : Session) (sets : List Tracked) : Session :=
  s.changeDaemon fun d =>
    { d with
      index := (d.index.replaceReplicaSets (sets.filterMap ReplicaSetRecord.ofTracked?)).2 }

/-- The next read of an object has to wait. -/
def delayReads (s : Session) (kind : Kind) (wait : Option Nat) : Session :=
  s.changeCluster fun c => c.setReads kind { c.readsOf kind with delay := some wait }

/-- The next reads of objects fail. -/
def failReads (s : Session) (kind : Kind) (times : Nat) : Session :=
  s.changeCluster fun c => c.setReads kind { c.readsOf kind with failures := times }

/-- The next resolution has to wait. -/
def delayResolution (s : Session) (wait : Option Nat) : Session :=
  s.change fun site => { site with resolutions := { site.resolutions with delay := some wait } }

/-- The next resolutions fail. -/
def failResolutions (s : Session) (times : Nat) : Session :=
  s.change fun site => { site with resolutions := { site.resolutions with failures := times } }

/-- Fixes the nodes of an object, if they are not found out through the index. -/
def setNodes (s : Session) (key : Key) (nodes : NodeSet) : Session :=
  s.change fun site =>
    match site.resolving with
    | .byIndex => site
    | .byTable table => { site with resolving := .byTable (table.insert key nodes) }

/-! ## Jobs -/

def renewToken (s : Session) : Session :=
  { s with token := s.nextToken, nextToken := s.nextToken + 1 }

def cancel (s : Session) : Session := s.change fun site => site.cancel s.token

def spawn (s : Session) (name : String) (job : Job) : Session :=
  let (i, run) := s.run.start job
  { s with run, jobs := s.jobs.insert name i }

/-- Does a job and waits for its result. -/
def call (s : Session) (job : Job) : Option Job.Result × Session :=
  let (r, run) := s.run.call job
  (r, { s with run })

/-- What can be said of a named job. Its result is told only once. -/
inductive News where
  | unknown
  | pending
  | result (r : Job.Result)

def poll (s : Session) (name : String) : News × Session :=
  match s.jobs.get? name with
  | none => (.unknown, s)
  | some i =>
    match s.run.result? i with
    | none => (.pending, s)
    | some r => (.result r, { s with jobs := s.jobs.erase name, run := s.run.forget i })

/-- Reports for some time. -/
def report (s : Session) (interval wait : Nat) : List Metrics.Point × Session :=
  let (points, run) := s.run.report interval wait s.nextToken
  (points, { s with run, nextToken := s.nextToken + 1 })

end Session

end Nodecast.Simulation
