import Nodecast.Hub.Config
import Nodecast.Hub.Stream
import Nodecast.Table

/-!
# The hub

The hub has at most one connected stream for a node. A new stream for the node takes the place of
the old one. A subscriber that falls too far behind is evicted, so that it connects again.
-/

namespace Nodecast

structure Hub (α : Type) where
  config : Hub.Config := {}
  /-- The time that new streams are marked with, in milliseconds. -/
  clock : Nat := 0
  /-- All streams ever registered, by generation. -/
  streams : Table Nat (Hub.Stream α) := ∅
  /-- The generation of the stream that is connected for a node. -/
  slots : Table String Nat := ∅
  /-- Nodes that joined and have not been looked at, for each listener. -/
  listeners : Table Nat (List String) := ∅
  nextGeneration : Nat := 1
  nextTicket : Nat := 0
  nextListener : Nat := 0
  joins : Nat := 0
  droppedNotConnected : Nat := 0
  droppedQueueFull : Nat := 0

namespace Hub

variable {α : Type}

/-! ## Streams and slots -/

def isConnected (h : Hub α) (node : String) : Bool := h.slots.contains node

/-- A new stream is connected for the node. -/
def register (h : Hub α) (node : String) : Nat × Hub α :=
  let generation := h.nextGeneration
  let fresh : Stream α :=
    { node, capacity := max h.config.queueCapacity 1, connectedAt := h.clock }
  (generation,
    { h with
      nextGeneration := generation + 1
      streams := h.streams.insert generation fresh
      slots := h.slots.insert node generation })

/-- Disconnects the node, whatever stream it has. -/
def unregister (h : Hub α) (node : String) : Bool × Hub α :=
  (h.isConnected node, { h with slots := h.slots.erase node })

/-- Disconnects the node if it is still connected through this stream. -/
def disconnect (h : Hub α) (node : String) (generation : Nat) : Hub α :=
  if h.slots.get? node = some generation then { h with slots := h.slots.erase node } else h

/-- The subscriber of a stream goes away. -/
def drop (h : Hub α) (generation : Nat) : Hub α :=
  match h.streams.get? generation with
  | none => h
  | some s =>
    disconnect { h with streams := h.streams.insert generation s.hangUp } s.node generation

/-- The connected stream of a node with its generation. -/
def connection? (h : Hub α) (node : String) : Option (Nat × Stream α) := do
  let generation ← h.slots.get? node
  let s ← h.streams.get? generation
  return (generation, s)

def setStream (h : Hub α) (generation : Nat) (s : Stream α) : Hub α :=
  { h with streams := h.streams.insert generation s }

/-! ## Joins -/

/-- Every listener learns of the join. -/
def notifyJoin (h : Hub α) (node : String) : Hub α :=
  { h with
    joins := h.joins + 1
    listeners := h.listeners.keys.foldl (fun t i => t.modify i (· ++ [node])) h.listeners }

def subscribe (h : Hub α) (node : String) : Nat × Hub α :=
  let (generation, h) := h.register node
  (generation, h.notifyJoin node)

def listen (h : Hub α) : Nat × Hub α :=
  (h.nextListener,
    { h with listeners := h.listeners.insert h.nextListener []
             nextListener := h.nextListener + 1 })

/-- The join a listener has not looked at for longest. -/
def nextJoin (h : Hub α) (listener : Nat) : Option (String × Hub α) :=
  match h.listeners.getD listener [] with
  | [] => none
  | node :: rest => some (node, { h with listeners := h.listeners.insert listener rest })

/-- All joins a listener has not looked at. -/
def takeJoins (h : Hub α) (listener : Nat) : List String × Hub α :=
  (h.listeners.getD listener [], { h with listeners := h.listeners.modify listener fun _ => [] })

def stopListening (h : Hub α) (listener : Nat) : Hub α :=
  { h with listeners := h.listeners.erase listener }

/-! ## Pushes -/

abbrev Outcome := Except DeliveryError Unit

/-- There is no stream to send to. -/
def refuse (h : Hub α) (node : String) : DeliveryError × Hub α :=
  (.notConnected node, { h with droppedNotConnected := h.droppedNotConnected + 1 })

/-- The subscriber is too far behind. It is disconnected. -/
def evict (h : Hub α) (node : String) (generation : Nat) : DeliveryError × Hub α :=
  (.queueFull node h.config.queueCapacity,
    disconnect { h with droppedQueueFull := h.droppedQueueFull + 1 } node generation)

/-- Offers an item to a stream that was found for the node, whatever became of the stream since. A
stream that nobody listens to any more is disconnected. -/
def offer (h : Hub α) (node : String) (generation : Nat) (item : α) : Outcome × Hub α :=
  match (h.streams.get? generation).filter Stream.listening with
  | none =>
    let (e, h) := h.refuse node
    (.error e, h.disconnect node generation)
  | some s =>
    match s.send? item with
    | some s => (.ok (), h.setStream generation s)
    | none =>
      let (e, h) := h.evict node generation
      (.error e, h)

/-- Finds the connected stream and offers it the item, with nothing in between. -/
def push (h : Hub α) (node : String) (item : α) : Outcome × Hub α :=
  match h.connection? node with
  | none =>
    let (e, h) := h.refuse node
    (.error e, h)
  | some (generation, _) => h.offer node generation item

/-- A paced push that has begun: its stream and its place there. -/
structure PacedRef where
  generation : Nat
  ticket : Nat
deriving DecidableEq, Repr

/-- Begins to gather room in a stream that was found, whatever became of the stream since. -/
def reserve (h : Hub α) (generation : Nat) (item : α) : PacedRef × Hub α :=
  (⟨generation, h.nextTicket⟩,
    { h with
      streams := h.streams.modify generation fun s => s.startPaced h.nextTicket item
      nextTicket := h.nextTicket + 1 })

/-- Finds the connected stream and begins to gather room there, with nothing in between. -/
def startPaced (h : Hub α) (node : String) (item : α) : Except DeliveryError PacedRef × Hub α :=
  match h.connection? node with
  | none =>
    let (e, h) := h.refuse node
    (.error e, h)
  | some (generation, _) =>
    let (r, h) := h.reserve generation item
    (.ok r, h)

/-- Finishes a paced push that has its room. Without its subscriber it is finished too, and that
comes first. -/
def resume? (h : Hub α) (r : PacedRef) : Option (Outcome × Hub α) :=
  (h.streams.get? r.generation).bind fun s =>
    if s.listening then
      ((s.paced? r.ticket).filter Paced.isGranted).map fun p =>
        (.ok (), h.setStream r.generation (s.sendPaced p))
    else
      let (e, h) := (h.setStream r.generation (s.withdraw r.ticket)).refuse s.node
      some (.error e, h.disconnect s.node r.generation)

/-- The time of a paced push is up. Its stream is evicted as if its queue were full. -/
def expire (h : Hub α) (r : PacedRef) : Outcome × Hub α :=
  match h.streams.get? r.generation with
  | none => (.ok (), h)
  | some s =>
    let (e, h) := (h.setStream r.generation (s.withdraw r.ticket)).evict s.node r.generation
    (.error e, h)

/-- A paced push is given up and nobody is told. -/
def abandon (h : Hub α) (r : PacedRef) : Hub α :=
  match h.streams.get? r.generation with
  | none => h
  | some s => h.setStream r.generation (s.withdraw r.ticket)

/-! ## The subscriber's side -/

def receive (h : Hub α) (generation : Nat) : Option α × Hub α :=
  match h.streams.get? generation with
  | none => (none, h)
  | some s =>
    let (item, s) := s.receive
    (item, h.setStream generation s)

/-- Nothing is left in the stream, and nothing can come any more. -/
def hasEnded (h : Hub α) (generation : Nat) : Bool :=
  match h.streams.get? generation with
  | none => true
  | some s =>
    s.buffer.isEmpty && s.paced.isEmpty && h.slots.get? s.node ≠ some generation

/-- Takes as many items as are buffered now. -/
def drain (h : Hub α) (generation : Nat) : List α × Hub α :=
  match h.streams.get? generation with
  | none => ([], h)
  | some s =>
    (s.buffer, s.buffer.foldl (fun h _ => (h.receive generation).2) h)

/-! ## Statistics -/

structure Stats where
  subscribers : Nat
  joins : Nat
  droppedNotConnected : Nat
  droppedQueueFull : Nat
deriving DecidableEq, Repr

def stats (h : Hub α) : Stats :=
  ⟨h.slots.size, h.joins, h.droppedNotConnected, h.droppedQueueFull⟩

structure SubscriberStats where
  connectedAt : Nat
  delivered : Nat
  pending : Nat
deriving DecidableEq, Repr

/-- Room that paced pushes have gathered counts as pending. -/
def Stream.stats (s : Stream α) : SubscriberStats := ⟨s.connectedAt, s.delivered, s.used⟩

def subscriber? (h : Hub α) (node : String) : Option SubscriberStats :=
  (h.connection? node).map fun c => c.2.stats

/-- The connected nodes in order. -/
def subscribers (h : Hub α) : List String := h.slots.keys.mergeSort

def allSubscribers (h : Hub α) : List (String × SubscriberStats) :=
  h.subscribers.filterMap fun node => (h.subscriber? node).map fun s => (node, s)

end Hub

end Nodecast
