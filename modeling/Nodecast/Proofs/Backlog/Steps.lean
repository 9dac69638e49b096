import Mathlib.Data.Option.Basic
import Nodecast.Proofs.Queues

/-!
# A queue at work

Watchers and timers add keys, workers pick them, and calls for them end well or not. An addition
and a pick have two halves each, and anything may happen between these. Time stops at the end of
every delay, as on the clock of a schedule.
-/

namespace Nodecast

/-! ## The halves of a start -/

namespace WorkQueue

variable {q q' : WorkQueue} {run : Nat} {key k : Key}

/-- The first half: a free worker of the run receives the oldest key. -/
def claim (q : WorkQueue) (run : Nat) : Option (Key × WorkQueue) := do
  let r ← q.running? run
  guard (r.active.length < r.workers)
  q.receive

/-- The second half: the key does not wait any more, and the call for it begins. -/
def begin (q : WorkQueue) (run : Nat) (key : Key) : WorkQueue :=
  { q.unmark key with
      runs := q.runs.modify run fun r => { r with active := r.active ++ [key] } }

theorem get?_of_running? {r : Run} (h : q.running? run = some r) : q.runs.get? run = some r := by
  unfold running? at h
  split at h
  · exact h
  · contradiction

theorem receive_eq_some :
    q.receive = some (key, q') ↔
      ∃ rest, q.channel = key :: rest ∧ q' = { q with channel := rest } := by
  unfold receive
  cases hc : q.channel with
  | nil => simp
  | cons first rest =>
    simp only [Option.some.injEq, Prod.mk.injEq, List.cons.injEq]
    constructor
    · rintro ⟨rfl, rfl⟩
      exact ⟨rest, ⟨rfl, rfl⟩, rfl⟩
    · rintro ⟨rest', ⟨rfl, rfl⟩, rfl⟩
      exact ⟨rfl, rfl⟩

theorem receive_of_claim (h : q.claim run = some (key, q')) : q.receive = some (key, q') := by
  obtain ⟨r, -, h⟩ := Option.bind_eq_some_iff.1 h
  obtain ⟨_, -, h⟩ := Option.bind_eq_some_iff.1 h
  exact h

/-- A start is its two halves, with nothing between them. -/
theorem start_eq (q : WorkQueue) (run : Nat) :
    q.start run = (q.claim run).map fun (key, q) => (key, q.begin run key) := by
  unfold start claim
  cases hr : q.running? run with
  | none => rfl
  | some r =>
    by_cases hfree : r.active.length < r.workers
    · cases hq : q.receive with
      | none => simp [hq, pick]
      | some p =>
        obtain ⟨key, q'⟩ := p
        obtain ⟨rest, -, rfl⟩ := receive_eq_some.1 hq
        have hrun := get?_of_running? hr
        simp [hfree, hq, pick, begin, unmark, Table.modify, hrun]
    · have hguard : (guard (r.active.length < r.workers) : Option Unit) = none := if_neg hfree
      simp [hguard]

/-- The outcome is a failure that another try may help. -/
def isRetryable (outcome : Except CycleError Unit) : Bool :=
  match outcome with
  | .ok () => false
  | .error e => e.isRetryable

theorem finish_eq (q : WorkQueue) (key : Key) (outcome : Except CycleError Unit) :
    q.finish key outcome =
      if isRetryable outcome then
        (some (q.backoff.delay (q.failures.getD key 0 + 1).toNat),
          { q with failures := q.failures.insert key (q.failures.getD key 0 + 1) })
      else (none, { q with failures := q.failures.erase key }) := by
  cases outcome <;> rfl

theorem complete_eq (q : WorkQueue) (run : Nat) (key : Key) (outcome : Except CycleError Unit) :
    q.complete run key outcome = ((q.finish key outcome).1,
      { (q.finish key outcome).2 with
          runs := (q.finish key outcome).2.runs.modify run fun r =>
            { r with active := r.active.erase key } }) := rfl

theorem runs_complete (q : WorkQueue) (run : Nat) (key : Key) (outcome : Except CycleError Unit) :
    (q.complete run key outcome).2.runs =
      q.runs.modify run fun r => { r with active := r.active.erase key } := by
  rw [complete_eq, finish_eq]
  cases isRetryable outcome <;> rfl

end WorkQueue

/-! ## The state -/

/-- A key and the time at which it is added again, in nanoseconds. -/
structure Backlog.Retry where
  key : Key
  due : Nat
deriving DecidableEq

inductive Backlog.Happening where
  /-- An addition of the key is over. -/
  | added (key : Key)
  /-- A call for the key begins. -/
  | started (key : Key)
  /-- A call for the key is over. -/
  | ended (key : Key) (outcome : Except CycleError Unit) (time : Nat)

structure Backlog where
  queue : WorkQueue
  /-- In nanoseconds. -/
  now : Nat := 0
  /-- Keys that an addition has marked and is still to send. -/
  adding : List Key := []
  /-- The run and the key of a pick that is half done. -/
  picked : Option (Nat × Key) := none
  timers : List Backlog.Retry := []
  /-- Retries that came, each with the time at which it began to add its key. -/
  rung : List Backlog.Retry := []
  /-- What happened, the newest first. No step reads it. -/
  log : List Backlog.Happening := []

namespace Backlog

/-! ## Steps -/

/-- The first half of an addition. It is the whole addition if the key waits already. -/
def ask (s : Backlog) (key : Key) : Backlog :=
  match s.queue.mark key with
  | (true, q) => { s with queue := q, adding := s.adding ++ [key] }
  | (false, q) => { s with queue := q, log := .added key :: s.log }

/-- The second half of an addition. -/
def send (s : Backlog) (key : Key) : Backlog :=
  { s with
      queue := s.queue.send key
      adding := s.adding.erase key
      log := .added key :: s.log }

/-- The second half of a pick. -/
def start (s : Backlog) (run : Nat) (key : Key) : Backlog :=
  { s with queue := s.queue.begin run key, picked := none, log := .started key :: s.log }

/-- A call ends. A failure worth another try sets a timer. -/
def complete (s : Backlog) (run : Nat) (key : Key) (outcome : Except CycleError Unit) : Backlog :=
  let (delay, q) := s.queue.complete run key outcome
  { s with
      queue := q
      timers := (delay.map fun d => ⟨key, s.now + d.total⟩).toList ++ s.timers
      log := .ended key outcome s.now :: s.log }

/-- A timer is over, and an addition of its key begins. -/
def ring (s : Backlog) (r : Retry) : Backlog :=
  { s with timers := s.timers.erase r, rung := ⟨r.key, s.now⟩ :: s.rung }.ask r.key

inductive Action where
  | enter (workers : Nat)
  | ask (key : Key)
  | send (key : Key)
  | receive (run : Nat)
  | start
  | complete (run : Nat) (key : Key) (outcome : Except CycleError Unit)
  | wait (time : Nat)
  | ring (r : Retry)

/-- The run is busy with the key. -/
def isBusy (s : Backlog) (run : Nat) (key : Key) : Bool :=
  (s.queue.runs.get? run).any fun r => r.active.contains key

def step (s : Backlog) : Action → Option Backlog
  | .enter workers => some { s with queue := (s.queue.enter workers).2 }
  | .ask key => some (s.ask key)
  | .send key => if key ∈ s.adding then some (s.send key) else none
  | .receive run =>
    if s.picked.isSome then none
    else (s.queue.claim run).map fun (key, q) => { s with queue := q, picked := some (run, key) }
  | .start => s.picked.map fun (run, key) => s.start run key
  | .complete run key outcome =>
    if s.isBusy run key then some (s.complete run key outcome) else none
  | .wait time =>
    if ∀ r ∈ s.timers, s.now + time ≤ r.due then some { s with now := s.now + time } else none
  | .ring r => if r ∈ s.timers ∧ r.due ≤ s.now then some (s.ring r) else none

def run (s : Backlog) : List Action → Option Backlog
  | [] => some s
  | a :: rest => (s.step a).bind fun s => s.run rest

/-- Nothing has happened yet. -/
def fresh (kind : Kind) (backoff : Backoff) : Backlog := { queue := { kind, backoff } }

/-- The queue begins empty, and then anything may happen except that a run is cancelled. -/
def Reachable (s : Backlog) : Prop :=
  ∃ kind backoff actions, (fresh kind backoff).run actions = some s

end Backlog

end Nodecast
