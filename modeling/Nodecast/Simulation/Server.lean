import Nodecast.Watch.Feed

/-!
# Servers

A server answers requests for lists and for watches. It follows a script, or it serves the objects
of a cluster.
-/

namespace Nodecast.Simulation

/-- A response of a script. -/
structure Response where
  status : Nat := 200
  text : String
  /-- Whether the response ends with its text. Otherwise it stays open. -/
  ends : Bool := true
deriving DecidableEq, Repr

namespace Response

/-- The page that is made of the response, once it has ended. -/
def page? (r : Response) (kind : Kind) : Option (Option Watch.Page) :=
  if r.ends then
    some (if r.status < 400 then Json.parse? r.text >>= Watch.Page.ofJson? kind else none)
  else none

/-- The lines that are complete. At the end of the response the last one is, too. -/
def lines (r : Response) : List String :=
  let all := (r.text.splitOn "\n").map fun l => if l.endsWith "\r" then (l.dropEnd 1).copy else l
  if r.ends && !r.text.endsWith "\n" && !r.text.isEmpty then all else all.dropLast

end Response

/-- A request for a list or for a watch. -/
structure Request where
  time : Nat
  watching : Bool
  kind : Kind
deriving DecidableEq, Repr

/-- A watch that is open. -/
structure Channel where
  kind : Kind
  /-- Lines that are not read yet. -/
  lines : List Watch.Line := []
  /-- Whether it ends behind those lines. -/
  ends : Bool := false

structure Server where
  /-- The responses to the requests to come, if the server follows a script. Further requests are
  never answered. -/
  script : Option (List Response) := none
  /-- The requests so far, the latest first. -/
  requests : List Request := []
  channels : Table Nat Channel := ∅
  nextChannel : Nat := 0

namespace Server

def log (s : Server) (r : Request) : Server := { s with requests := r :: s.requests }

/-- The requests since the last look in order. -/
def takeRequests (s : Server) : List Request × Server :=
  (s.requests.reverse, { s with requests := [] })

/-- A page with the objects of a cluster. -/
def pageOf (objects : List Tracked) : Watch.Page := { objects, more := false, version := "1" }

/-- A list is asked for. Without an answer the request is still open. -/
def list (s : Server) (time : Nat) (kind : Kind) (objects : List Tracked) :
    Option (Option Watch.Page) × Server :=
  let s := s.log ⟨time, false, kind⟩
  match s.script with
  | none => (some (some (pageOf objects)), s)
  | some [] => (none, s)
  | some (r :: rest) => (r.page? kind, { s with script := some rest })

def openChannel (s : Server) (c : Channel) : Nat × Server :=
  (s.nextChannel,
    { s with channels := s.channels.insert s.nextChannel c, nextChannel := s.nextChannel + 1 })

/-- A watch is asked for. -/
def watch (s : Server) (time : Nat) (kind : Kind) : Option Nat × Server :=
  let s := s.log ⟨time, true, kind⟩
  let opened (s : Server) (c : Channel) : Option Nat × Server :=
    let (i, s) := s.openChannel c
    (some i, s)
  match s.script with
  | none => opened s { kind }
  | some [] => (none, s)
  | some (r :: rest) =>
    opened { s with script := some rest }
      { kind, lines := r.lines.map (Watch.Line.parse kind), ends := r.ends }

/-- What comes next over an open watch: a line, its end, or nothing yet. -/
def next? (s : Server) (i : Nat) : Option (Option Watch.Line) :=
  match s.channels.get? i with
  | none => some none
  | some c =>
    match c.lines with
    | l :: _ => some (some l)
    | [] => if c.ends then some none else none

/-- The next line of a watch was read. -/
def advance (s : Server) (i : Nat) : Server :=
  { s with channels := s.channels.modify i fun c => { c with lines := c.lines.drop 1 } }

/-- Nobody reads the watch any more. -/
def close (s : Server) (i : Nat) : Server := { s with channels := s.channels.erase i }

def changeWatches (s : Server) (kind : Kind) (f : Channel → Channel) : Server :=
  { s with channels := s.channels.keys.foldl (fun t i =>
      t.modify i fun c => if c.kind = kind then f c else c) s.channels }

/-- A line goes to all that watch the kind. -/
def announce (s : Server) (kind : Kind) (l : Watch.Line) : Server :=
  s.changeWatches kind fun c => if c.ends then c else { c with lines := c.lines ++ [l] }

/-- All watches of a kind end. -/
def endWatches (s : Server) (kind : Kind) : Server :=
  s.changeWatches kind fun c => { c with ends := true }

end Server

end Nodecast.Simulation
