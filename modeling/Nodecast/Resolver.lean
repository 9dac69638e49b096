import Nodecast.NodeSet
import Nodecast.PodIndex.State

/-!
# Resolving nodes

An object reaches the nodes through Pods: it concerns each node that runs a Pod of the object.
-/

namespace Nodecast

/-- How the Pods of an object are found. -/
inductive Matcher where
  /-- The object is a Pod itself. -/
  | itself
  | indexed (space : String) (field : PodIndex.Field)
  | nothing
deriving DecidableEq

namespace Matcher

/-- A Service without a selector has no Pods of its own. -/
def ofObject (kind : Kind) (t : Tracked) : Matcher :=
  match kind with
  | .pod => itself
  | .nameSpace => indexed t.name .space
  | .deployment => indexed t.space (.deployment t.uid)
  | .replicaSet | .replicationController => indexed t.space (.owner t.uid)
  | .service =>
    match t.selector with
    | some selector => if selector.isEmpty then nothing else indexed t.space (.selector selector)
    | none => nothing

end Matcher

/-- Pods that are not on a node yet, or name an empty one, do not count. -/
def NodeSet.ofPods (names : List (Option String)) : NodeSet :=
  .ofList ((names.filterMap id).filter fun n => !n.isEmpty)

/-- The nodes that need to know about the object. -/
def Matcher.nodes {ε : Type} (m : Matcher) (t : Tracked)
    (lookup : String → PodIndex.Field → Except ε (List (Option String))) : Except ε NodeSet :=
  match m with
  | itself => .ok (.ofPods [t.nodeName])
  | nothing => .ok ∅
  | indexed space field => (lookup space field).map NodeSet.ofPods

def PodIndex.resolve (i : PodIndex) (kind : Kind) (t : Tracked) : Except ClusterError NodeSet :=
  (Matcher.ofObject kind t).nodes t i.lookup

/-- What a cycle is told of the nodes. It does not matter to it why they are not known. -/
def PodIndex.nodesOf (i : PodIndex) (kind : Kind) (key : Key) (t : Tracked) :
    Except CycleError NodeSet :=
  (i.resolve kind t).mapError fun _ => .resolve kind key

end Nodecast
