import Nodecast.Simulation.Site

/-!
# Watches on a clock

A watch of a kind asks the server for a list and then for lines, and tells the daemon what it
reads. After a failure it rests and begins anew. It goes on until it is cancelled.
-/

namespace Nodecast.Simulation

/-- What a watch has of the server. -/
inductive Link where
  /-- Nothing has been asked. -/
  | idle
  /-- The answer is still to come. -/
  | asked
  | page (p : Option Watch.Page)
  | channel (i : Nat)

structure WatchTask where
  kind : Kind
  token : Nat
  stage : Watch.Stage := .listing []
  link : Link := .idle
  wait : Wait := .past

namespace WatchTask

def deadline (t : WatchTask) : Option Deadline := t.wait.deadline

def isReady (now : Nat) (s : Site) (t : WatchTask) : Bool :=
  s.isCancelled t.token ||
    match t.link with
    | .idle => t.wait.isOver now
    | .asked => false
    | .page _ => true
    | .channel i => (s.server.next? i).isSome

/-- The watch comes to a stage, and what it has read is told. -/
def enter (m : Moment) (s : Site) (t : WatchTask) (next : Watch.Stage × Option Notice)
    (link : Link) : Site × WatchTask :=
  let daemon := match next.2 with
    | some n => s.daemon.observe t.kind n
    | none => s.daemon
  let wait : Wait := match next.1 with
    | .resting => .ends (m.after Watch.rest)
    | _ => .past
  ({ s with daemon }, { t with stage := next.1, link, wait })

/-- The watch asks for what its stage needs. -/
def ask (m : Moment) (s : Site) (t : WatchTask) : Site × WatchTask :=
  match t.stage with
  | .listing _ =>
    let (page, server) := s.server.list m.now t.kind (s.cluster.list t.kind)
    let link : Link := match page with
      | some p => .page p
      | none => .asked
    ({ s with server }, { t with link })
  | .opening =>
    let (opened, server) := s.server.watch m.now t.kind
    let link : Link := match opened with
      | some i => .channel i
      | none => .asked
    ({ s with server }, { t with stage := .reading, link })
  | .reading | .resting => (s, { t with stage := .listing [], wait := .past })

/-- The watch reads what has come over its channel. -/
def read (m : Moment) (s : Site) (t : WatchTask) (i : Nat) : Site × WatchTask :=
  match s.server.next? i with
  | none => (s, t)
  | some none => t.enter m { s with server := s.server.close i } (.opening, none) .idle
  | some (some line) =>
    match Watch.readLine line with
    | (.reading, notice) =>
      t.enter m { s with server := s.server.advance i } (.reading, notice) (.channel i)
    | next => t.enter m { s with server := s.server.close i } next .idle

/-- None means that the watch ended. -/
def step (m : Moment) (s : Site) (t : WatchTask) : Site × Option WatchTask :=
  if s.isCancelled t.token then (s, none)
  else
    match t.link, t.stage with
    | .page p, .listing objects =>
      let (s, t) := t.enter m s (Watch.listed objects p) .idle
      (s, some t)
    | .channel i, _ =>
      let (s, t) := t.read m s i
      (s, some t)
    | _, _ =>
      let (s, t) := t.ask m s
      (s, some t)

end WatchTask

end Nodecast.Simulation
