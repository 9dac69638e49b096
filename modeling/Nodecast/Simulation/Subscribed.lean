import Nodecast.Hub.State

/-!
# Named subscriptions

A hub together with subscriptions that are known by names of their own.
-/

namespace Nodecast.Simulation

structure Subscribed (α : Type) where
  hub : Hub α
  /-- The generation of the stream of each subscription. -/
  names : Table String Nat := ∅

/-- What a subscriber found in its stream. -/
structure Found (α : Type) where
  node : String
  items : List α
  ended : Bool

namespace Subscribed

variable {α : Type}

/-- A new stream gets a name. The stream that had it before is dropped last. -/
def attach (s : Subscribed α) (name : String) (opened : Nat × Hub α) : Subscribed α :=
  let hub := match s.names.get? name with
    | some old => opened.2.drop old
    | none => opened.2
  { hub, names := s.names.insert name opened.1 }

def register (s : Subscribed α) (name node : String) : Subscribed α :=
  s.attach name (s.hub.register node)

def subscribe (s : Subscribed α) (name node : String) : Subscribed α :=
  s.attach name (s.hub.subscribe node)

def drop (s : Subscribed α) (name : String) : Bool × Subscribed α :=
  match s.names.get? name with
  | some g => (true, { hub := s.hub.drop g, names := s.names.erase name })
  | none => (false, s)

def receive (s : Subscribed α) (name : String) : Option α × Subscribed α :=
  match s.names.get? name with
  | none => (none, s)
  | some g =>
    let (item, hub) := s.hub.receive g
    (item, { s with hub })

/-- Takes all that is there now. -/
def drain (s : Subscribed α) (name : String) : Option (Found α) × Subscribed α :=
  match s.names.get? name with
  | none => (none, s)
  | some g =>
    let node := ((s.hub.streams.get? g).map Hub.Stream.node).getD ""
    let (items, hub) := s.hub.drain g
    (some { node, items, ended := hub.hasEnded g }, { s with hub })

end Subscribed

end Nodecast.Simulation
