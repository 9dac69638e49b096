/-!
# Streams

A stream is a log of items and a mark up to which the subscriber has taken them. It has room for a
fixed number of items that are not taken yet. A paced push gathers room before it sends.
-/

namespace Nodecast.Hub

/-- A push that waits for room. It sends one item once it has gathered all it wants. -/
structure Paced (α : Type) where
  ticket : Nat
  item : α
  wanted : Nat
  gathered : Nat := 0

def Paced.isGranted {α : Type} (p : Paced α) : Bool := p.wanted ≤ p.gathered

structure Stream (α : Type) where
  node : String
  capacity : Nat
  /-- When it was registered, in milliseconds. -/
  connectedAt : Nat := 0
  /-- All items ever queued, the oldest first. -/
  log : List α := []
  /-- How many of them the subscriber has taken. -/
  taken : Nat := 0
  /-- How many pushes have counted their item as delivered. -/
  delivered : Nat := 0
  /-- Whether the subscriber still listens. -/
  listening : Bool := true
  /-- Pushes that gather room, in order of arrival. -/
  paced : List (Paced α) := []

namespace Stream

variable {α : Type}

/-! ## Room -/

def buffer (s : Stream α) : List α := s.log.drop s.taken

/-- Room that paced pushes have gathered. -/
def gathered : List (Paced α) → Nat
  | [] => 0
  | p :: rest => p.gathered + gathered rest

def reserved (s : Stream α) : Nat := gathered s.paced

def used (s : Stream α) : Nat := s.buffer.length + s.reserved

def free (s : Stream α) : Nat := s.capacity - s.used

/-- Room goes to the pushes in order of arrival. -/
def deal (room : Nat) : List (Paced α) → List (Paced α)
  | [] => []
  | p :: rest =>
    let share := min room (p.wanted - p.gathered)
    { p with gathered := p.gathered + share } :: deal (room - share) rest

/-- Waiting pushes take all room that is free. -/
def dealFree (s : Stream α) : Stream α := { s with paced := deal s.free s.paced }

/-! ## Steps -/

/-- The item is queued if there is room for it. -/
def send? (s : Stream α) (item : α) : Option (Stream α) :=
  if 0 < s.free then some { s with log := s.log ++ [item], delivered := s.delivered + 1 } else none

/-- A paced push wants room for its item and for half the capacity on top. -/
def startPaced (s : Stream α) (ticket : Nat) (item : α) : Stream α :=
  dealFree { s with paced := s.paced ++ [{ ticket, item, wanted := s.capacity / 2 + 1 }] }

def paced? (s : Stream α) (ticket : Nat) : Option (Paced α) :=
  s.paced.find? fun p => p.ticket = ticket

/-- A paced push is over. The room it gathered goes to the others. -/
def withdraw (s : Stream α) (ticket : Nat) : Stream α :=
  dealFree { s with paced := s.paced.filter fun p => p.ticket ≠ ticket }

/-- A paced push sends its item and gives the rest of its room back. -/
def sendPaced (s : Stream α) (p : Paced α) : Stream α :=
  withdraw { s with log := s.log ++ [p.item], delivered := s.delivered + 1 } p.ticket

/-- The subscriber takes the oldest item. -/
def receive (s : Stream α) : Option α × Stream α :=
  match s.buffer with
  | [] => (none, s)
  | item :: _ => (some item, dealFree { s with taken := s.taken + 1 })

/-- The subscriber goes away. What it has not taken is lost. -/
def hangUp (s : Stream α) : Stream α := { s with listening := false, taken := s.log.length }

end Stream

end Nodecast.Hub
