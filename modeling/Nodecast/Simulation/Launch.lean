import Nodecast.Simulation.Session

/-!
# Launching a daemon

All tasks of a daemon are started together. In a supervised run they also end together.
-/

namespace Nodecast.Simulation

structure Launch where
  /-- How many cycles of a kind may go on at a time. -/
  workers : Nat
  /-- The time between two reports in milliseconds. -/
  interval : Nat
  /-- Whether the daemon can listen on its address. -/
  bound : Bool := true

namespace Launch

/-- Pods and ReplicaSets are always watched, for the index is made of them. -/
def watched (d : Daemon) : List Kind :=
  [.pod, .replicaSet] ++
    [Kind.nameSpace, .deployment, .replicationController, .service].filter d.router.isEnabled

def jobs (l : Launch) (d : Daemon) (token : Nat) : List Job :=
  (d.collectors.keys.flatMap fun kind =>
    [.join { kind, token }, .runner kind { workers := l.workers, token }]) ++
    (watched d).map (fun kind => .watch { kind, token }) ++
    [.listener token l.bound, .reporter token l.interval .past]

end Launch

namespace Session

/-- Starts all tasks of the daemon. -/
def launch (s : Session) (l : Launch) : Session :=
  { s with run := SiteRun.settle (s.run.spawnAll (l.jobs s.daemon s.token)) }

/-- Starts all tasks of the daemon as one run. -/
def launchSupervised (s : Session) (l : Launch) : Session :=
  (s.change fun site => { site with runs := site.runs.insert s.token none }).launch l

/-- A signal ends a run that goes on. -/
def interrupt (s : Session) : Session := s.change fun site => site.endTask s.token .done

/-- How it stands with the run: none was started, it goes on, or it has ended. -/
def supervised? (s : Session) : Option (Option Ending) := s.site.runs.get? s.token

/-- The end of the run has been told. -/
def forgetRun (s : Session) : Session :=
  s.change fun site => { site with runs := site.runs.erase s.token }

/-! ## The cluster -/

/-- An object is created or changed. Those that watch its kind learn of it, unless the change is
silent. -/
def store (s : Session) (kind : Kind) (object : Tracked) (silent : Bool) : Session :=
  s.change fun site =>
    match object.metadata.key? with
    | none => site
    | some key =>
      { site with
        cluster := site.cluster.put kind key object
        server :=
          if silent then site.server
          else site.server.announce kind (.notice (.applied object)) }

/-- An object is deleted, if there is one. -/
def delete (s : Session) (kind : Kind) (key : Key) (silent : Bool) : Bool × Session :=
  match s.site.cluster.get? kind key with
  | none => (false, s)
  | some object =>
    (true, s.change fun site =>
      { site with
        cluster := site.cluster.remove kind key
        server :=
          if silent then site.server
          else site.server.announce kind (.notice (.deleted object)) })

/-- The watches of a kind fail, for what they go on from is too old. -/
def failWatches (s : Session) (kind : Kind) : Session :=
  s.changeServer fun server => server.announce kind .failure

/-- The watches of a kind end. -/
def endWatches (s : Session) (kind : Kind) : Session :=
  s.changeServer fun server => server.endWatches kind

end Session

end Nodecast.Simulation
