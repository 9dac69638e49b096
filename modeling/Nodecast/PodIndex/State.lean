import Nodecast.Failure
import Nodecast.PodIndex.Pods
import Nodecast.PodIndex.ReplicaSets

/-!
# The pod index

Which Pods belong to an object is looked up under a field of the object, without a look at all
Pods. Every update is one step. A look-up is two steps, for the ReplicaSets of a Deployment are
read before the Pods.
-/

namespace Nodecast

structure PodIndex where
  pods : Pods := {}
  replicaSets : ReplicaSets := {}
  podsSynced : Bool := false
  replicaSetsSynced : Bool := false

namespace PodIndex

/-! ## Updates -/

def applyPod (i : PodIndex) (p : PodRecord) : Option PodRecord × PodIndex :=
  let (previous, pods) := i.pods.apply p
  (previous, { i with pods })

def deletePod (i : PodIndex) (key : Key) : Option PodRecord × PodIndex :=
  let (previous, pods) := i.pods.delete key
  (previous, { i with pods })

/-- A complete list takes the place of all Pods. -/
def replacePods (i : PodIndex) (l : List PodRecord) : List PodRecord × PodIndex :=
  (i.pods.records.values, { i with pods := .ofList l, podsSynced := true })

def applyReplicaSet (i : PodIndex) (r : ReplicaSetRecord) : Option ReplicaSetRecord × PodIndex :=
  let (previous, replicaSets) := i.replicaSets.apply r
  (previous, { i with replicaSets })

def deleteReplicaSet (i : PodIndex) (uid : String) : Option ReplicaSetRecord × PodIndex :=
  let (previous, replicaSets) := i.replicaSets.delete uid
  (previous, { i with replicaSets })

/-- A complete list takes the place of all ReplicaSets. -/
def replaceReplicaSets (i : PodIndex) (l : List ReplicaSetRecord) :
    List ReplicaSetRecord × PodIndex :=
  (i.replicaSets.records.values, { i with replicaSets := .ofList l, replicaSetsSynced := true })

def isSynced (i : PodIndex) : Bool := i.podsSynced && i.replicaSetsSynced

/-! ## Look-ups -/

/-- What Pods are looked up by. -/
inductive Field where
  /-- The uid of a direct owner. -/
  | owner (uid : String)
  /-- The uid of a Deployment that owns a ReplicaSet that owns the Pods. -/
  | deployment (uid : String)
  /-- Labels the Pods carry. -/
  | selector (labels : Labels)
  /-- All Pods of the namespace. -/
  | space
deriving DecidableEq

/-- The part of the index that is still incomplete and would be needed. -/
def missingFor (i : PodIndex) : Field → Option IndexPart
  | .deployment _ =>
    if !i.podsSynced then some .pods
    else if !i.replicaSetsSynced then some .replicaSets
    else none
  | _ => if i.podsSynced then none else some .pods

/-- The first step of a look-up. -/
def replicaSetsFor (i : PodIndex) : Field → List String
  | .deployment uid => i.replicaSets.byDeployment.under uid
  | _ => []

/-- Keys that may belong to the field. An empty selector selects nothing. -/
def candidates (i : PodIndex) (space : String) (sets : List String) : Field → List Key
  | .space => i.pods.bySpace.under space
  | .owner uid => i.pods.byOwner.under uid
  | .deployment _ => sets.flatMap i.pods.byOwner.under
  | .selector labels => if labels.isEmpty then [] else i.pods.bySpace.under space

def Field.accepts (p : PodRecord) : Field → Bool
  | .selector labels => p.labels.matches? labels
  | _ => true

/-- The second step of a look-up, with the ReplicaSets that the first one found. -/
def podsFor (i : PodIndex) (space : String) (field : Field) (sets : List String) :
    List PodRecord :=
  ((i.candidates space sets field).filter fun k => k.space = space).filterMap fun k =>
    (i.pods.get? k).filter field.accepts

/-- A look-up that nothing comes between. -/
def related (i : PodIndex) (space : String) (field : Field) : List PodRecord :=
  i.podsFor space field (i.replicaSetsFor field)

/-- The nodes of the related Pods, or the part of the index that was not synced. -/
def lookup (i : PodIndex) (space : String) (field : Field) :
    Except ClusterError (List (Option String)) :=
  match i.missingFor field with
  | some part => .error (.indexNotSynced part)
  | none => .ok ((i.related space field).map PodRecord.nodeName)

end PodIndex

end Nodecast
