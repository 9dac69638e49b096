import Nodecast.Table

/-!
# Schedules

Tasks share a state and take turns on a virtual clock of milliseconds. A task goes on until it has
to wait, and those that can go on stand in line.
-/

namespace Nodecast

/-- The end of a wait. Of waits that end together the one begun first ends first. -/
structure Deadline where
  time : Nat
  stamp : Nat
deriving DecidableEq, Repr

def Deadline.isOver (d : Deadline) (now : Nat) : Bool := d.time ≤ now

/-- What a step sees of the clock. The stamp grows with every step. -/
structure Moment where
  now : Nat
  stamp : Nat

def Moment.after (m : Moment) (wait : Nat) : Deadline := ⟨m.now + wait, m.stamp⟩

/-- What a step leaves behind. A task that is over may be forgotten. -/
structure Turn (σ τ : Type) where
  state : σ
  task : Option τ
  spawned : List τ := []

/-- How tasks of one sort behave. -/
structure Behavior (σ τ : Type) where
  /-- The end of the wait that a task is in. -/
  deadline : τ → Option Deadline
  /-- Whether a task can go on now. -/
  ready : Nat → σ → τ → Bool
  step : Moment → σ → τ → Turn σ τ

structure Schedule (σ τ : Type) where
  state : σ
  now : Nat := 0
  stamp : Nat := 0
  tasks : Table Nat τ := ∅
  nextTask : Nat := 0
  line : List Nat := []

namespace Schedule

variable {σ τ : Type}

/-- Tasks that can go on but do not stand in line yet. -/
def latecomers (b : Behavior σ τ) (s : Schedule σ τ) : List (Nat × τ) :=
  s.tasks.entries.filter fun (i, t) => !s.line.contains i && b.ready s.now s.state t

def stampOf (b : Behavior σ τ) (t : τ) : Nat :=
  match b.deadline t with
  | some d => d.stamp
  | none => 0

/-- All that became ready together line up, those that waited for the clock in the order in which
they began to wait. -/
def lineUp (b : Behavior σ τ) (s : Schedule σ τ) : Schedule σ τ :=
  let late := (s.latecomers b).mergeSort fun p q => stampOf b p.2 ≤ stampOf b q.2
  { s with line := s.line ++ late.map Prod.fst }

/-- A new task goes to the end of the line. -/
def spawn (s : Schedule σ τ) (t : τ) : Nat × Schedule σ τ :=
  (s.nextTask,
    { s with tasks := s.tasks.insert s.nextTask t
             nextTask := s.nextTask + 1
             line := s.line ++ [s.nextTask] })

def spawnAll (s : Schedule σ τ) (ts : List τ) : Schedule σ τ :=
  ts.foldl (fun s t => (s.spawn t).2) s

def task? (s : Schedule σ τ) (i : Nat) : Option τ := s.tasks.get? i

/-- Changes a task from outside. -/
def modify (s : Schedule σ τ) (i : Nat) (f : τ → τ) : Schedule σ τ :=
  { s with tasks := s.tasks.modify i f }

def forget (s : Schedule σ τ) (i : Nat) : Schedule σ τ := { s with tasks := s.tasks.erase i }

/-- The first in line takes one step, or leaves the line if it has to wait. -/
def turn (b : Behavior σ τ) (s : Schedule σ τ) : Schedule σ τ :=
  match s.line with
  | [] => s
  | i :: rest =>
    match (s.tasks.get? i).filter (b.ready s.now s.state) with
    | none => { s with line := rest }
    | some t =>
      let result := b.step ⟨s.now, s.stamp⟩ s.state t
      let tasks := match result.task with
        | some t => s.tasks.insert i t
        | none => s.tasks.erase i
      let s := { s with state := result.state, stamp := s.stamp + 1, tasks }
      (s.spawnAll result.spawned).lineUp b

/-- Turns are taken until nobody can go on. The bound stops tasks that never wait. -/
def settleWithin (b : Behavior σ τ) : Nat → Schedule σ τ → Schedule σ τ
  | 0, s => s
  | n + 1, s => if s.line.isEmpty then s else settleWithin b n (s.turn b)

def bound : Nat := 1000000

def settle (b : Behavior σ τ) (s : Schedule σ τ) : Schedule σ τ :=
  settleWithin b bound (s.lineUp b)

/-! ## Time -/

/-- The next end of a wait that is still to come. -/
def nextDeadline (b : Behavior σ τ) (s : Schedule σ τ) : Option Nat :=
  let times := (s.tasks.values.filterMap b.deadline).map Deadline.time
  (times.filter fun t => s.now < t).min?

/-- The clock moves, and all whose wait is over go on. -/
def moveTo (b : Behavior σ τ) (s : Schedule σ τ) (time : Nat) : Schedule σ τ :=
  settle b { s with now := time }

def advanceWithin (b : Behavior σ τ) (target : Nat) : Nat → Schedule σ τ → Schedule σ τ
  | 0, s => s
  | n + 1, s =>
    match (s.nextDeadline b).filter fun t => t ≤ target with
    | some time => advanceWithin b target n (s.moveTo b time)
    | none => s.moveTo b target

/-- Lets time pass, with a stop at every end of a wait. -/
def advance (b : Behavior σ τ) (s : Schedule σ τ) (wait : Nat) : Schedule σ τ :=
  advanceWithin b (s.now + wait) bound (s.settle b)

def awaitWithin (b : Behavior σ τ) (stop : Schedule σ τ → Bool) :
    Nat → Schedule σ τ → Schedule σ τ
  | 0, s => s
  | n + 1, s =>
    if stop s then s
    else
      match s.nextDeadline b with
      | some time => awaitWithin b stop n (s.moveTo b time)
      | none => s

/-- Lets time pass only as long as it must for the condition to hold. -/
def await (b : Behavior σ τ) (stop : Schedule σ τ → Bool) (s : Schedule σ τ) : Schedule σ τ :=
  awaitWithin b stop bound (s.settle b)

end Schedule

end Nodecast
