import Nodecast.Hub.State
import Nodecast.Schedule

/-!
# Paced pushes on a clock

A paced push waits for room, but not for ever.
-/

namespace Nodecast.Simulation

/-- How far a paced push has come. -/
inductive Push (α : Type) where
  | fresh (node : String) (item : α) (patience : Nat)
  | waiting (ref : Hub.PacedRef) (deadline : Deadline)
  | done (outcome : Hub.Outcome)

namespace Push

variable {α : Type}

def deadline : Push α → Option Deadline
  | waiting _ d => some d
  | _ => none

def isReady (now : Nat) (h : Hub α) : Push α → Bool
  | fresh .. => true
  | waiting ref d => (h.resume? ref).isSome || d.isOver now
  | done _ => false

/-- Room that came in time counts even if the time is up. -/
def step (m : Moment) (h : Hub α) : Push α → Hub α × Push α
  | fresh node item patience =>
    match h.startPaced node item with
    | (.ok ref, h) => (h, waiting ref (m.after patience))
    | (.error e, h) => (h, done (.error e))
  | waiting ref d =>
    match h.resume? ref with
    | some (outcome, h) => (h, done outcome)
    | none =>
      if d.isOver m.now then
        let (outcome, h) := h.expire ref
        (h, done outcome)
      else (h, waiting ref d)
  | done outcome => (h, done outcome)

def outcome? : Push α → Option Hub.Outcome
  | done outcome => some outcome
  | _ => none

def behavior : Behavior (Hub α) (Push α) where
  deadline := deadline
  ready := isReady
  step m h p :=
    let (h, p) := p.step m h
    ⟨h, some p, []⟩

end Push

/-- A hub with the paced pushes that are under way. -/
abbrev Pushes (α : Type) := Schedule (Hub α) (Push α)

namespace Pushes

variable {α : Type}

def settle (s : Pushes α) : Pushes α := Schedule.settle Push.behavior s

def advance (s : Pushes α) (wait : Nat) : Pushes α := Schedule.advance Push.behavior s wait

def outcome? (s : Pushes α) (i : Nat) : Option Hub.Outcome := s.task? i >>= Push.outcome?

/-- Starts a paced push and waits for its outcome. -/
def push (s : Pushes α) (node : String) (item : α) (patience : Nat) :
    Option Hub.Outcome × Pushes α :=
  let (i, s) := s.spawn (.fresh node item patience)
  let s := s.await Push.behavior fun s => (outcome? s i).isSome
  (outcome? s i, s.forget i)

end Pushes

end Nodecast.Simulation
