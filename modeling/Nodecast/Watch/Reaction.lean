import Nodecast.Daemon

/-!
# Reactions to watch notices

A notice that an object changed is answered by a list of reactions. Each reaction is one step on
the state of the daemon and may call for more. Steps of other tasks may fall between any two.
-/

namespace Nodecast

inductive Reaction where
  | trigger (kind : Kind) (key : Key)
  /-- Triggers the Deployment of a ReplicaSet, if the index knows it. -/
  | triggerDeployment (space uid : String)
  /-- Triggers all known Services of a namespace. -/
  | triggerServices (space : String)
  /-- Triggers all that is cached of a kind. -/
  | triggerCached (kind : Kind)
  | storePod (p : PodRecord)
  | removePod (p : PodRecord)
  | replacePods (ps : List PodRecord)
  | storeReplicaSet (r : ReplicaSetRecord)
  | removeReplicaSet (r : ReplicaSetRecord)
  | replaceReplicaSets (rs : List ReplicaSetRecord)
  | registerService (key : Key)
  | unregisterService (key : Key)
  | clearServices
deriving DecidableEq

namespace Reaction

/-! ## What a change may affect -/

def forOwner (space : String) (o : Owner) : List Reaction :=
  if o.kind = Kind.replicaSet.name then
    [trigger .replicaSet ⟨space, o.name⟩, triggerDeployment space o.uid]
  else if o.kind = Kind.replicationController.name then
    [trigger .replicationController ⟨space, o.name⟩]
  else []

/-- Everything whose nodes may depend on the Pod. -/
def podChanged (p : PodRecord) : List Reaction :=
  let space := p.key.space
  [trigger .nameSpace (.clusterScoped space), trigger .pod p.key] ++
    p.owners.flatMap (forOwner space) ++ [triggerServices space]

/-- The Deployment that is resolved through the ReplicaSet. -/
def replicaSetChanged (r : ReplicaSetRecord) : List Reaction :=
  r.deployment.toList.map fun o => trigger .deployment ⟨r.key.space, o.name⟩

/-- All listed keys, and all cached ones, for an object may have gone unnoticed. -/
def resync (kind : Kind) (listed : List Key) : List Reaction :=
  listed.map (trigger kind) ++ [triggerCached kind]

/-! ## Steps -/

def step (d : Daemon) : Reaction → Daemon × List Reaction
  | trigger kind key => ({ d with router := d.router.trigger kind key }, [])
  | triggerDeployment space uid =>
    let owner := d.index.replicaSets.get? uid >>= ReplicaSetRecord.deployment
    (d, owner.toList.map fun o => trigger .deployment ⟨space, o.name⟩)
  | triggerServices space =>
    (d, (d.router.servicesIn space).map fun name => trigger .service ⟨space, name⟩)
  | triggerCached kind => (d, (d.cachedKeys kind).map (trigger kind))
  | storePod p =>
    let (previous, index) := d.index.applyPod p
    ({ d with index }, previous.toList.flatMap podChanged ++ podChanged p)
  | removePod p =>
    let (previous, index) := d.index.deletePod p.key
    ({ d with index }, podChanged (previous.getD p))
  | replacePods ps =>
    let (previous, index) := d.index.replacePods ps
    ({ d with index }, previous.flatMap podChanged ++ ps.flatMap podChanged ++ resync .pod [])
  | storeReplicaSet r =>
    let (previous, index) := d.index.applyReplicaSet r
    ({ d with index },
      previous.toList.flatMap replicaSetChanged ++ replicaSetChanged r ++
        [trigger .replicaSet r.key])
  | removeReplicaSet r =>
    let (previous, index) := d.index.deleteReplicaSet r.uid
    let gone := previous.getD r
    ({ d with index }, replicaSetChanged gone ++ [trigger .replicaSet gone.key])
  | replaceReplicaSets rs =>
    let (previous, index) := d.index.replaceReplicaSets rs
    ({ d with index },
      previous.flatMap replicaSetChanged ++ rs.flatMap replicaSetChanged ++
        resync .replicaSet (rs.map ReplicaSetRecord.key))
  | registerService key => ({ d with router := d.router.registerService key }, [])
  | unregisterService key => ({ d with router := d.router.unregisterService key }, [])
  | clearServices => ({ d with router := d.router.clearServices }, [])

/-- Performs reactions in order, each with all it calls for before the next. -/
def performWithin : Nat → Daemon → List Reaction → Daemon
  | 0, d, _ => d
  | n + 1, d, rs =>
    rs.foldl (fun d r =>
      let (d, more) := r.step d
      performWithin n d more) d

/-- A reaction calls for triggers at most by way of another reaction. -/
def depth : Nat := 3

/-- Performs reactions that no other task interrupts. -/
def perform (d : Daemon) (rs : List Reaction) : Daemon := performWithin depth d rs

end Reaction

end Nodecast
