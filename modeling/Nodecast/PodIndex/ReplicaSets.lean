import Nodecast.PodIndex.Buckets
import Nodecast.PodIndex.Record

/-!
# Indexed ReplicaSets

ReplicaSets by uid, with buckets that find the uids of a Deployment.
-/

namespace Nodecast

structure ReplicaSets where
  records : Table String ReplicaSetRecord := ∅
  byDeployment : Buckets String := ∅

namespace ReplicaSets

def get? (rs : ReplicaSets) (uid : String) : Option ReplicaSetRecord := rs.records.get? uid

/-- Takes the links of the record under this uid away, if there is one. -/
def detach (rs : ReplicaSets) (uid : String) : ReplicaSets :=
  match rs.get? uid with
  | some r => { rs with byDeployment := rs.byDeployment.unlinkAll r.deploymentUids uid }
  | none => rs

/-- Stores a ReplicaSet under its own uid and answers what was stored there. -/
def apply (rs : ReplicaSets) (r : ReplicaSetRecord) : Option ReplicaSetRecord × ReplicaSets :=
  (rs.get? r.uid,
    { records := rs.records.insert r.uid r
      byDeployment := (rs.detach r.uid).byDeployment.linkAll r.deploymentUids r.uid })

def delete (rs : ReplicaSets) (uid : String) : Option ReplicaSetRecord × ReplicaSets :=
  (rs.get? uid, { rs.detach uid with records := rs.records.erase uid })

/-- Of two ReplicaSets with one uid the later one is kept. -/
def ofList (l : List ReplicaSetRecord) : ReplicaSets := l.foldl (fun rs r => (rs.apply r).2) {}

end ReplicaSets

end Nodecast
