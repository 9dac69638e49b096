import Nodecast.Key
import Nodecast.Kind

/-!
# Events

What the agent on a node is told about one object.
-/

namespace Nodecast

/-- How an object concerns a node now. The order of the constructors is their sort order. -/
inductive Change where
  /-- The node starts to need the object. -/
  | added
  /-- The node knows the object, and its metadata changed. -/
  | modified
  /-- The node no longer needs the object. -/
  | deleted
deriving DecidableEq, Repr, Inhabited

namespace Change

def all : List Change := [added, modified, deleted]

def name : Change → String
  | added => "Added"
  | modified => "Modified"
  | deleted => "Deleted"

def ofName? (s : String) : Option Change := all.find? (fun c => c.name = s)

def rank : Change → Nat
  | added => 0
  | modified => 1
  | deleted => 2

end Change

structure Event where
  change : Change
  kind : Kind
  uid : String
  space : String
  name : String
  node : String
  /-- The normalized metadata. A deletion has none. -/
  payload : Option String
deriving DecidableEq, Repr

namespace Event

def key (e : Event) : Key := ⟨e.space, e.name⟩

/-- Events sort by node, then by kind name, then by key. -/
def le (a b : Event) : Bool :=
  a.node < b.node || (a.node = b.node &&
    (a.kind.name < b.kind.name || (a.kind.name = b.kind.name && a.key.le b.key)))

/-- Events about one object for one node keep their order. -/
def sort (es : List Event) : List Event := es.mergeSort le

end Event

end Nodecast
