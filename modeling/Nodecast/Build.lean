import Nodecast.Kubeconfig
import Nodecast.Settings

/-!
# Building a daemon

A daemon is built from its settings and from the way to its cluster.
-/

namespace Nodecast

inductive BuildError where
  | hub (e : DeliveryError)
  | cluster (e : ClusterError)
deriving DecidableEq, Repr

def BuildError.message : BuildError → String
  | hub _ => "Invalid subscriber configuration"
  | cluster _ => "Failed to initialize Kubernetes client"

/-- The settings are looked at first. -/
def Settings.build (s : Settings) (source : Kubeconfig.Source) : Except BuildError Daemon :=
  match s.hubConfig.validate, source.connect with
  | .error e, _ => .error (.hub e)
  | .ok (), .error e => .error (.cluster e)
  | .ok (), .ok _ => .ok s.daemon

end Nodecast
