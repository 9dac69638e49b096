import Nodecast.Tracked

/-!
# Records of the pod index

What the index keeps of a Pod and of a ReplicaSet.
-/

namespace Nodecast

structure Owner where
  kind : String
  uid : String
  name : String
deriving DecidableEq, Repr

def OwnerReference.owner (o : OwnerReference) : Owner := ⟨o.kind, o.uid, o.name⟩

structure PodRecord where
  key : Key
  nodeName : Option String := none
  labels : Labels := ∅
  owners : List Owner := []
deriving DecidableEq

namespace PodRecord

/-- A Pod without a name is not indexed. -/
def ofTracked? (t : Tracked) : Option PodRecord :=
  t.metadata.key?.map fun key =>
    { key, nodeName := t.nodeName, labels := t.metadata.labels.getD ∅
      owners := t.metadata.owners.map OwnerReference.owner }

def ownerUids (p : PodRecord) : List String := p.owners.map Owner.uid

end PodRecord

structure ReplicaSetRecord where
  uid : String
  key : Key
  /-- The first owner that is a Deployment. -/
  deployment : Option Owner := none
deriving DecidableEq, Repr

namespace ReplicaSetRecord

/-- A ReplicaSet without a uid or a name is not indexed. -/
def ofTracked? (t : Tracked) : Option ReplicaSetRecord := do
  let uid ← t.metadata.uid
  let key ← t.metadata.key?
  let owners := t.metadata.owners.map OwnerReference.owner
  return { uid, key, deployment := owners.find? fun o => o.kind = Kind.deployment.name }

def deploymentUids (r : ReplicaSetRecord) : List String := r.deployment.toList.map Owner.uid

end ReplicaSetRecord

end Nodecast
