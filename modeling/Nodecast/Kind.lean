import Nodecast.Text.Blank

/-!
# Kinds of resources

The kinds of Kubernetes resources whose metadata goes to the nodes.
-/

namespace Nodecast

/-- The order of the constructors is the order in which kinds sort. -/
inductive Kind where
  | deployment
  | replicaSet
  | pod
  | nameSpace
  | service
  | replicationController
deriving DecidableEq, Repr, Inhabited

namespace Kind

/-- Every kind, in start-up order. -/
def startup : List Kind :=
  [nameSpace, pod, deployment, replicaSet, replicationController, service]

def name : Kind → String
  | deployment => "Deployment"
  | replicaSet => "ReplicaSet"
  | pod => "Pod"
  | nameSpace => "Namespace"
  | service => "Service"
  | replicationController => "ReplicationController"

def ofName? (s : String) : Option Kind := startup.find? (fun k => k.name = s)

/-- The API version a kind is served under. -/
def apiVersion : Kind → String
  | deployment | replicaSet => "apps/v1"
  | pod | nameSpace | service | replicationController => "v1"

def isNamespaced (k : Kind) : Bool := k != nameSpace

/-- The name of the collection in request paths. -/
def plural : Kind → String
  | deployment => "deployments"
  | replicaSet => "replicasets"
  | pod => "pods"
  | nameSpace => "namespaces"
  | service => "services"
  | replicationController => "replicationcontrollers"

/-- Beside its name and its plural a kind has a short form. -/
def short : Kind → String
  | deployment => "deploy"
  | replicaSet => "rs"
  | pod => "po"
  | nameSpace => "ns"
  | service => "svc"
  | replicationController => "rc"

def spellings (k : Kind) : List String :=
  [Text.lowerAscii k.name, k.plural, k.short]

/-- A text that names no kind. It is kept trimmed and in lower case. -/
structure Unsupported where
  text : String
deriving DecidableEq, Repr

def Unsupported.message (u : Unsupported) : String := s!"unsupported resource kind `{u.text}`"

/-- White space around the text and the case of its ASCII letters do not matter. -/
def parse (s : String) : Except Unsupported Kind :=
  let text := Text.lowerAscii (Text.trim s)
  match startup.find? (fun k => k.spellings.contains text) with
  | some k => .ok k
  | none => .error ⟨text⟩

def rank : Kind → Nat
  | deployment => 0
  | replicaSet => 1
  | pod => 2
  | nameSpace => 3
  | service => 4
  | replicationController => 5

end Kind

end Nodecast
