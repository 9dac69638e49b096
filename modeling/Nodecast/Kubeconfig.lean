import Nodecast.Failure
import Nodecast.Metadata
import Nodecast.Net.Url
import Nodecast.Yaml.Reader

/-!
# Kubeconfig

How to reach a cluster: the context in use names a cluster, a user and a namespace.
-/

namespace Nodecast

namespace Kubeconfig

structure Cluster where
  server : Option String
deriving DecidableEq, Repr

structure Context where
  cluster : String
  user : String
  space : Option String
deriving DecidableEq, Repr

/-- Something with a name. It may be missing. -/
structure Entry (α : Type) where
  name : String
  value : Option α
deriving DecidableEq, Repr

/-- What is found under a name. Of several entries the first counts. -/
def find? {α : Type} (es : List (Entry α)) (name : String) : Option α :=
  es.find? (fun e => e.name = name) >>= Entry.value

end Kubeconfig

structure Kubeconfig where
  clusters : List (Kubeconfig.Entry Kubeconfig.Cluster) := []
  users : List (Kubeconfig.Entry Unit) := []
  contexts : List (Kubeconfig.Entry Kubeconfig.Context) := []
  currentContext : Option String := none
deriving DecidableEq, Repr

namespace Kubeconfig

/-! ## Reading -/

/-- Members that are text, if they are there. -/
def areTexts (j : Json) (names : List String) : Option Unit :=
  names.forM fun name => (j.optional? name Json.text?).map fun _ => ()

def record? (j : Json) : Option Json := if j.isRecord then some j else none

def clusterOfJson? (j : Json) : Option Cluster := do
  guard j.isRecord
  areTexts j ["certificate-authority", "certificate-authority-data", "proxy-url", "tls-server-name"]
  let _ ← j.optional? "insecure-skip-tls-verify" Json.bool?
  return ⟨← j.optional? "server" Json.text?⟩

def userOfJson? (j : Json) : Option Unit := do
  guard j.isRecord
  areTexts j ["username", "password", "token", "tokenFile", "client-certificate",
    "client-certificate-data", "client-key", "client-key-data", "as"]
  let _ ← j.optional? "as-groups" (Json.listOf? Json.text?)
  let _ ← j.optional? "auth-provider" record?
  let _ ← j.optional? "exec" record?

def contextOfJson? (j : Json) : Option Context := do
  guard j.isRecord
  let cluster ← j.member? "cluster" >>= Json.text?
  let user ← j.member? "user" >>= Json.text?
  return ⟨cluster, user, ← j.optional? "namespace" Json.text?⟩

def entryOfJson? {α : Type} (member : String) (read : Json → Option α) (j : Json) :
    Option (Entry α) := do
  guard j.isRecord
  let name ← j.member? "name" >>= Json.text?
  return ⟨name, ← j.optional? member read⟩

def ofJson? (j : Json) : Option Kubeconfig := do
  guard j.isRecord
  areTexts j ["kind", "apiVersion"]
  let _ ← j.optional? "preferences" record?
  let _ ← j.optional? "extensions" (Json.listOf? record?)
  let entries {α : Type} (list member : String) (read : Json → Option α) :
      Option (List (Entry α)) :=
    (j.optional? list (Json.listOf? (entryOfJson? member read))).map fun es => es.getD []
  return {
    clusters := ← entries "clusters" "cluster" clusterOfJson?
    users := ← entries "users" "user" userOfJson?
    contexts := ← entries "contexts" "context" contextOfJson?
    currentContext := ← j.optional? "current-context" Json.text? }

/-- A text without a document says nothing. -/
def parse? (s : String) : Option Kubeconfig :=
  match Yaml.parse? s with
  | none => none
  | some none => some {}
  | some (some j) => ofJson? j

/-! ## Use -/

/-- The namespace of the context in use, if all that the context needs is there. -/
def defaultSpace? (k : Kubeconfig) : Option String := do
  let context ← find? k.contexts (← k.currentContext)
  let cluster ← find? k.clusters context.cluster
  let () ← find? k.users context.user
  guard (Net.isUrl (← cluster.server))
  return context.space.getD "default"

end Kubeconfig

/-- Where the text of a kubeconfig comes from. -/
inductive Kubeconfig.Source where
  | file (text : String)
  | missingFile
  /-- No file is named. -/
  | nowhere
deriving DecidableEq, Repr

/-- Prepares the connection to the cluster. It answers the default namespace. -/
def Kubeconfig.Source.connect : Kubeconfig.Source → Except ClusterError String
  | nowhere => .error (.connectionFailed "no in-cluster or local configuration found")
  | missingFile => .error (.connectionFailed "cannot read kubeconfig")
  | file text =>
    match parse? text with
    | none => .error (.connectionFailed "cannot read kubeconfig")
    | some k =>
      match k.defaultSpace? with
      | some space => .ok space
      | none => .error (.connectionFailed "invalid kubeconfig")

end Nodecast
