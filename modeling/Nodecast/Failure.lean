import Nodecast.Key
import Nodecast.Kind

/-!
# Failures

Why a reconciliation, a request to the API or a delivery came to nothing, and the text that says
so.
-/

namespace Nodecast

/-- Why a reconciliation was aborted. Nothing was committed then. -/
inductive CycleError where
  | fetch (kind : Kind) (key : Key)
  | resolve (kind : Kind) (key : Key)
  | serialization (kind : Kind) (key : Key)
  | cancelled (kind : Kind) (key : Key)
  | joinListenerClosed (kind : Kind)
deriving DecidableEq, Repr

namespace CycleError

def message : CycleError → String
  | fetch kind key => s!"Failed to fetch {kind.name} {key.display}"
  | resolve kind key => s!"Failed to resolve the nodes of {kind.name} {key.display}"
  | serialization kind key => s!"Failed to serialize the metadata of {kind.name} {key.display}"
  | cancelled kind key => s!"Reconciliation of {kind.name} {key.display} cancelled"
  | joinListenerClosed kind => s!"Subscriber join listener of {kind.name} closed"

/-- The word for the sort of failure. -/
def name : CycleError → String
  | fetch .. => "Fetch"
  | resolve .. => "Resolve"
  | serialization .. => "Serialization"
  | cancelled .. => "Cancelled"
  | joinListenerClosed _ => "JoinListenerClosed"

/-- Whether the key is worth another try later. -/
def isRetryable : CycleError → Bool
  | fetch .. | resolve .. | serialization .. => true
  | cancelled .. | joinListenerClosed _ => false

end CycleError

/-- The two halves of the pod index. -/
inductive IndexPart where
  | pods
  | replicaSets
deriving DecidableEq, Repr

def IndexPart.name : IndexPart → String
  | pods => "pods"
  | replicaSets => "replicasets"

/-- Failures on the side of the cluster. -/
inductive ClusterError where
  | connectionFailed (detail : String)
  | requestFailed (detail : String)
  | watchFailed (detail : String)
  | indexNotSynced (part : IndexPart)
deriving DecidableEq, Repr

namespace ClusterError

def message : ClusterError → String
  | connectionFailed detail => s!"Failed to connect to Kubernetes API: {detail}"
  | requestFailed detail => s!"Kubernetes API request failed: {detail}"
  | watchFailed detail => s!"Failed to watch {detail}"
  | indexNotSynced part => s!"Pod index {part.name} has not completed its initial sync"

/-- The word for the sort of failure. -/
def name : ClusterError → String
  | connectionFailed _ => "ConnectionFailed"
  | requestFailed _ => "RequestFailed"
  | watchFailed _ => "WatchFailed"
  | indexNotSynced _ => "IndexNotSynced"

end ClusterError

/-- Failures on the side of the subscribers. -/
inductive DeliveryError where
  | notConnected (node : String)
  | queueFull (node : String) (capacity : Nat)
  | serialization (detail : String)
  | configuration (detail : String)
deriving DecidableEq, Repr

namespace DeliveryError

def message : DeliveryError → String
  | notConnected node => s!"Node {node} has no registered subscriber"
  | queueFull node capacity => s!"Subscriber queue for node {node} is full ({capacity} items)"
  | serialization detail => s!"Serialization error: {detail}"
  | configuration detail => s!"Configuration error: {detail}"

/-- The word for the sort of failure. -/
def name : DeliveryError → String
  | notConnected _ => "NotConnected"
  | queueFull .. => "QueueFull"
  | serialization _ => "Serialization"
  | configuration _ => "Configuration"

end DeliveryError

end Nodecast
