import Nodecast.Event
import Nodecast.NodeSet

/-!
# Entries

The last committed state of an object, and the steps from one state to the next. A step comes with
the events it owes to the nodes, at most one for a node.
-/

namespace Nodecast

structure Entry where
  kind : Kind
  uid : String
  fields : String
  nodes : NodeSet
deriving DecidableEq

/-! ## What a step owes -/

/-- What a node is told when an object moves from one node set to another. -/
def changeFor (previous current : NodeSet) (changed : Bool) (node : String) : Option Change :=
  if node ∈ current then
    if node ∈ previous then (if changed then some .modified else none) else some .added
  else if node ∈ previous then some .deleted
  else none

/-- Pairs of node and change in increasing order of node. -/
abbrev Pending := List (String × Change)

def pending (previous current : NodeSet) (changed : Bool) : Pending :=
  (previous.union current).names.filterMap fun node =>
    (changeFor previous current changed node).map fun change => (node, change)

def Pending.get? (p : Pending) (node : String) : Option Change := p.lookup node

theorem mem_pending {previous current : NodeSet} {changed : Bool} {node : String}
    {change : Change} :
    (node, change) ∈ pending previous current changed ↔
      changeFor previous current changed node = some change := by
  unfold pending
  simp only [List.mem_filterMap, Option.map_eq_some_iff, Prod.mk.injEq]
  constructor
  · rintro ⟨_, _, _, h, rfl, rfl⟩
    exact h
  · intro h
    refine ⟨node, ?_, change, h, rfl, rfl⟩
    rw [← NodeSet.mem_def, NodeSet.mem_union]
    unfold changeFor at h
    by_cases hc : node ∈ current
    · exact Or.inr hc
    · by_cases hp : node ∈ previous
      · exact Or.inl hp
      · simp [hc, hp] at h

/-! ## Steps -/

structure Transition where
  entry : Entry
  pending : Pending
deriving DecidableEq

/-- No node needs the object any more. -/
def Transition.isEmpty (t : Transition) : Bool := t.entry.nodes.isEmpty

namespace Entry

/-- An object that was not known before: every node is told that it was added. -/
def firstSeen (kind : Kind) (uid fields : String) (nodes : NodeSet) : Transition :=
  ⟨⟨kind, uid, fields, nodes⟩, Nodecast.pending ∅ nodes true⟩

/-- Another uid counts as a change, for then the object was deleted and made again. -/
def advance (e : Entry) (uid fields : String) (nodes : NodeSet) : Transition :=
  let changed := e.fields ≠ fields || e.uid ≠ uid
  ⟨⟨e.kind, uid, fields, nodes⟩, Nodecast.pending e.nodes nodes changed⟩

/-- The object is gone: every node is told that it was deleted. -/
def retire (e : Entry) : Transition :=
  ⟨{ e with nodes := ∅ }, Nodecast.pending e.nodes ∅ false⟩

def isAssociatedWith (e : Entry) (node : String) : Bool := node ∈ e.nodes

/-- A deletion carries no payload. -/
def payloadFor (e : Entry) : Change → Option String
  | .added | .modified => some e.fields
  | .deleted => none

def eventFor (e : Entry) (key : Key) (node : String) (change : Change) : Event :=
  ⟨change, e.kind, e.uid, key.space, key.name, node, e.payloadFor change⟩

end Entry

/-- All events are made from the entry the step leads to. -/
def Transition.events (t : Transition) (key : Key) : List Event :=
  t.pending.map fun (node, change) => t.entry.eventFor key node change

end Nodecast
