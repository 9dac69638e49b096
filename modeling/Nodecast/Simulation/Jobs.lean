import Nodecast.Simulation.Cycles
import Nodecast.Simulation.Replays
import Nodecast.Simulation.Runner
import Nodecast.Simulation.Watching

/-!
# Jobs

Everything that goes on at a site, on one clock.
-/

namespace Nodecast.Simulation

inductive Job where
  /-- A cycle on its own. -/
  | cycle (t : CycleTask)
  | replay (t : ReplayTask)
  | join (t : JoinTask)
  /-- A join loop that has stopped. -/
  | stopped
  | runner (kind : Kind) (r : Runner)
  /-- A cycle that a worker of a run does. -/
  | call (run : Nat) (t : CycleTask)
  /-- A key that failed, before the delay begins. -/
  | delayed (kind : Kind) (key : Key) (token delay : Nat)
  | retry (kind : Kind) (r : Retry)
  | watch (t : WatchTask)
  /-- Answers the nodes. Without an address to listen on it ends at once. -/
  | listener (token : Nat) (bound : Bool)
  /-- Reports at once and then after every interval, which must not be zero. -/
  | reporter (token interval : Nat) (wait : Wait)

namespace Job

def deadline : Job → Option Deadline
  | cycle t | call _ t => t.deadline
  | replay t => t.deadline
  | join t => t.deadline
  | retry _ r => some r.deadline
  | watch t => t.deadline
  | reporter _ _ wait => wait.deadline
  | _ => none

def isReady (now : Nat) (s : Site) : Job → Bool
  | cycle t => t.isReady now s
  | replay t => t.isReady now s
  | join t => t.isReady now s
  | stopped => false
  | runner kind r => (s.queue? kind).any fun q => r.isReady q (s.isCancelled r.token)
  | call _ t => t.isReady now s || t.outcome?.isSome
  | delayed .. => true
  | retry _ r => r.isReady now (s.isCancelled r.token)
  | watch t => t.isReady now s
  | listener token bound => s.isCancelled token || !bound
  | reporter token _ wait => s.isCancelled token || wait.isOver now

def stepRunner (s : Site) (kind : Kind) (r : Runner) : Turn Site Job :=
  match s.queue? kind with
  | none => ⟨s, none, []⟩
  | some q =>
    let (move, q) := r.step q (s.isCancelled r.token)
    let s := s.setQueue q
    match move with
    | .entered run => ⟨s, some (.runner kind { r with run := some run }), []⟩
    | .started run key => ⟨s, some (.runner kind r), [.call run { kind, key, token := r.token }]⟩
    | .left => ⟨s, none, []⟩
    | .stayed => ⟨s, some (.runner kind r), []⟩

/-- A worker is done with a cycle. What failed may be tried again. -/
def finishCall (s : Site) (run : Nat) (t : CycleTask) (outcome : Except CycleError (List Event)) :
    Turn Site Job :=
  match s.queue? t.kind with
  | none => ⟨s, none, []⟩
  | some q =>
    let (delay, q) := q.complete run t.key (outcome.map fun _ => ())
    ⟨s.setQueue q, delay.map fun d => .delayed t.kind t.key t.token d.millis, []⟩

def step (m : Moment) (s : Site) : Job → Turn Site Job
  | cycle t =>
    let (s, t) := t.step m s
    ⟨s, some (.cycle t), []⟩
  | replay t =>
    let (s, t) := t.step m s
    ⟨s, some (.replay t), []⟩
  | join t =>
    let (s, t) := t.step m s
    ⟨s, some ((t.map Job.join).getD .stopped), []⟩
  | stopped => ⟨s, some .stopped, []⟩
  | runner kind r => stepRunner s kind r
  | call run t =>
    match t.outcome? with
    | some outcome => finishCall s run t outcome
    | none =>
      let (s, t) := t.step m s
      ⟨s, some (.call run t), []⟩
  | delayed kind key token delay => ⟨s, some (.retry kind ⟨key, token, m.after delay⟩), []⟩
  | retry kind r =>
    match s.queue? kind with
    | none => ⟨s, none, []⟩
    | some q => ⟨s.setQueue (r.step q (s.isCancelled r.token)), none, []⟩
  | watch t =>
    let (s, t) := t.step m s
    ⟨s, t.map .watch, []⟩
  | listener token _ => ⟨s.endTask token .done, none, []⟩
  | reporter token interval _ =>
    if s.isCancelled token then ⟨s, none, []⟩
    else if interval = 0 then ⟨s.endTask token (.panicked Metrics.zeroInterval), none, []⟩
    else ⟨s.report, some (.reporter token interval (.ends (m.after interval))), []⟩

def behavior : Behavior Site Job := ⟨Job.deadline, Job.isReady, Job.step⟩

/-- What came of a job. -/
inductive Result where
  | cycle (outcome : Except CycleError (List Event))
  | replay (count : Nat)
  | stopped

def result? : Job → Option Result
  | cycle t => t.outcome?.map .cycle
  | replay t => t.outcome?.map .replay
  | stopped => some .stopped
  | _ => none

end Job

/-- A site with all jobs that are under way. -/
abbrev SiteRun := Schedule Site Job

namespace SiteRun

def settle (s : SiteRun) : SiteRun := Schedule.settle Job.behavior s

def advance (s : SiteRun) (wait : Nat) : SiteRun := Schedule.advance Job.behavior s wait

/-- Starts a job in the background. -/
def start (s : SiteRun) (j : Job) : Nat × SiteRun :=
  let (i, s) := s.spawn j
  (i, settle s)

def result? (s : SiteRun) (i : Nat) : Option Job.Result := s.task? i >>= Job.result?

/-- Waits for the result of a job. -/
def call (s : SiteRun) (j : Job) : Option Job.Result × SiteRun :=
  let (i, s) := s.spawn j
  let s := s.await Job.behavior fun s => (result? s i).isSome
  (result? s i, s.forget i)

/-- Changes the site from outside. -/
def change (s : SiteRun) (f : Site → Site) : SiteRun := settle { s with state := f s.state }

/-- Reports for some time. The points come in the order in which they were reported. -/
def report (s : SiteRun) (interval wait token : Nat) : List Metrics.Point × SiteRun :=
  let before := s.state.reported.length
  let (_, s) := s.spawn (.reporter token interval .past)
  let s := advance s wait
  let points := s.state.reported.take (s.state.reported.length - before)
  (points.reverse, change s fun site => site.cancel token)

end SiteRun

end Nodecast.Simulation
