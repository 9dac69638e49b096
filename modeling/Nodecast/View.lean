import Nodecast.Cache
import Nodecast.Event.Wire
import Nodecast.Hub.State
import Nodecast.Resolver
import Nodecast.Time.Duration

/-!
# Views

How the state of a daemon looks as JSON to those who inspect it.
-/

namespace Nodecast

/-- Values that can be inspected. -/
class ToJson (α : Type) where
  toJson : α → Json

export ToJson (toJson)

/-! ## Plain values -/

instance : ToJson Json := ⟨id⟩

instance : ToJson Bool := ⟨.bool⟩

instance : ToJson Nat := ⟨fun n => .int n⟩

instance : ToJson String := ⟨.text⟩

instance {α : Type} [ToJson α] : ToJson (Option α) :=
  ⟨fun
    | some a => toJson a
    | none => .null⟩

instance {α : Type} [ToJson α] : ToJson (List α) := ⟨fun l => .list (l.map toJson)⟩

instance {α β : Type} [ToJson α] [ToJson β] : ToJson (α × β) :=
  ⟨fun p => .list [toJson p.1, toJson p.2]⟩

/-! ## Names -/

instance : ToJson Kind := ⟨fun k => .text k.name⟩

instance : ToJson Change := ⟨fun c => .text c.name⟩

instance : ToJson Key := ⟨fun k => toJson [k.space, k.name]⟩

def Key.ofJson? : Json → Option Key
  | .list [.text space, .text name] => some ⟨space, name⟩
  | _ => none

instance : ToJson Labels := ⟨Labels.toJson⟩

instance : ToJson Duration := ⟨fun d => toJson [d.secs, d.nanos]⟩

def Duration.ofJson? : Json → Option Duration
  | .list [.int secs, .int nanos] => some ⟨secs.toNat, nanos.toNat⟩
  | _ => none

/-! ## Events and entries -/

instance : ToJson Event := ⟨Event.toJson⟩

instance : ToJson NodeSet := ⟨fun nodes => toJson nodes.names⟩

instance : ToJson Entry :=
  ⟨fun e => .record [("kind", toJson e.kind), ("uid", toJson e.uid), ("fields", toJson e.fields),
    ("nodes", toJson e.nodes)]⟩

/-! ## Objects and their Pods -/

instance : ToJson Tracked :=
  ⟨fun t => .record [("uid", toJson t.uid), ("name", toJson t.name), ("namespace", toJson t.space),
    ("labels", toJson t.metadata.labels), ("selector", toJson t.selector),
    ("node_name", toJson t.nodeName)]⟩

instance : ToJson Owner := ⟨fun o => toJson [o.kind, o.uid, o.name]⟩

instance : ToJson PodRecord :=
  ⟨fun p => .record [("key", toJson p.key), ("node_name", toJson p.nodeName),
    ("labels", toJson p.labels), ("owners", toJson p.owners)]⟩

instance : ToJson ReplicaSetRecord :=
  ⟨fun r => .record [("uid", toJson r.uid), ("key", toJson r.key),
    ("deployment", toJson r.deployment)]⟩

namespace PodIndex.Field

instance : ToJson Field :=
  ⟨fun
    | .owner uid => .record [("owner_uid", toJson uid)]
    | .deployment uid => .record [("deployment_uid", toJson uid)]
    | .selector labels => .record [("selector", toJson labels)]
    | .space => .text "namespace"⟩

def ofJson? : Json → Option Field
  | .text "namespace" => some .space
  | .record [("owner_uid", .text uid)] => some (.owner uid)
  | .record [("deployment_uid", .text uid)] => some (.deployment uid)
  | .record [("selector", labels)] => (Labels.ofJson? labels).map .selector
  | _ => none

end PodIndex.Field

instance : ToJson Matcher :=
  ⟨fun
    | .itself => .text "itself"
    | .nothing => .text "nothing"
    | .indexed space field => toJson (space, field)⟩

/-! ## Failures -/

def failureJson (name message : String) : Json :=
  .record [("error", .text name), ("message", .text message)]

instance : ToJson CycleError := ⟨fun e => failureJson e.name e.message⟩

instance : ToJson ClusterError := ⟨fun e => failureJson e.name e.message⟩

instance : ToJson DeliveryError := ⟨fun e => failureJson e.name e.message⟩

/-- A failure takes the place of what did not come about. -/
instance {ε α : Type} [ToJson ε] [ToJson α] : ToJson (Except ε α) :=
  ⟨fun
    | .ok a => toJson a
    | .error e => toJson e⟩

/-! ## Counts -/

instance : ToJson Hub.Stats :=
  ⟨fun s => .record [("subscribers", toJson s.subscribers), ("joins", toJson s.joins),
    ("dropped_not_connected", toJson s.droppedNotConnected),
    ("dropped_queue_full", toJson s.droppedQueueFull)]⟩

instance : ToJson Hub.SubscriberStats :=
  ⟨fun s => .record [("delivered", toJson s.delivered), ("pending", toJson s.pending)]⟩

end Nodecast
