import Nodecast.Watch.Reaction

/-!
# Watch notices

What a watch tells about the objects of one kind, and how the daemon reacts to it.
-/

namespace Nodecast

inductive Notice where
  /-- An object was created or changed. -/
  | applied (object : Tracked)
  | deleted (object : Tracked)
  /-- The complete list of objects, after the watch was interrupted. -/
  | restarted (objects : List Tracked)

namespace Notice

def podReactions : Notice → List Reaction
  | applied o => (PodRecord.ofTracked? o).toList.map .storePod
  | deleted o => (PodRecord.ofTracked? o).toList.map .removePod
  | restarted os => [.replacePods (os.filterMap PodRecord.ofTracked?)]

def replicaSetReactions : Notice → List Reaction
  | applied o => (ReplicaSetRecord.ofTracked? o).toList.map .storeReplicaSet
  | deleted o => (ReplicaSetRecord.ofTracked? o).toList.map .removeReplicaSet
  | restarted os => [.replaceReplicaSets (os.filterMap ReplicaSetRecord.ofTracked?)]

def keysOf (os : List Tracked) : List Key := os.filterMap fun o => o.metadata.key?

/-- A Service is registered before it is triggered. -/
def serviceReactions : Notice → List Reaction
  | applied o => (keysOf [o]).flatMap fun key => [.registerService key, .trigger .service key]
  | deleted o => (keysOf [o]).flatMap fun key => [.unregisterService key, .trigger .service key]
  | restarted os =>
    let keys := keysOf os
    [.clearServices] ++ keys.map .registerService ++ Reaction.resync .service keys

/-- An object of any other kind concerns itself only. -/
def plainReactions (kind : Kind) : Notice → List Reaction
  | applied o | deleted o => (keysOf [o]).map (.trigger kind)
  | restarted os => Reaction.resync kind (keysOf os)

def reactions (kind : Kind) (n : Notice) : List Reaction :=
  match kind with
  | .pod => n.podReactions
  | .replicaSet => n.replicaSetReactions
  | .service => n.serviceReactions
  | .nameSpace | .deployment | .replicationController => n.plainReactions kind

end Notice

def Daemon.observe (d : Daemon) (kind : Kind) (n : Notice) : Daemon :=
  Reaction.perform d (n.reactions kind)

end Nodecast
