import Mathlib.Logic.Relation
import Nodecast.Proofs.Backlog.Steps
import Nodecast.Proofs.Launched.Frames
import Nodecast.Proofs.System.World
import Nodecast.Simulation.Launch

/-!
# Launched daemons at work

The tasks of a launched daemon take steps in any order while nodes come and go, the cluster changes
and signals arrive. The numbers that the daemon was launched with stay what they are.
-/

namespace Nodecast

/-! ## Workers of a queue -/

/-- Every run of the queue has this many workers. -/
def WorkQueue.Manned (q : WorkQueue) (n : Nat) : Prop :=
  ∀ id r, q.runs.get? id = some r → r.workers = n

namespace WorkQueue.Manned

variable {q q' : WorkQueue} {n id : Nat} {key : Key}

theorem of_runs (h : q.Manned n) (hruns : q'.runs = q.runs) : q'.Manned n := by
  unfold Manned
  rw [hruns]
  exact h

theorem enter (h : q.Manned n) {workers : Nat} (hn : max workers 1 = n) :
    (q.enter workers).2.Manned n := by
  intro id r hr
  change (q.runs.insert q.nextRun { workers := max workers 1 }).get? id = some r at hr
  rw [Table.get?_insert] at hr
  split at hr
  · cases hr
    exact hn
  · exact h id r hr

theorem leave (h : q.Manned n) (run : Nat) : (q.leave run).Manned n := by
  intro id r hr
  change (q.runs.erase run).get? id = some r at hr
  rw [Table.get?_erase] at hr
  split at hr
  · contradiction
  · exact h id r hr

theorem busy (h : q.Manned n) {run : Nat} {f : List Key → List Key}
    (hruns : q'.runs = q.runs.modify run fun r => { r with active := f r.active }) :
    q'.Manned n := by
  intro id r hr
  rw [hruns, Table.get?_modify] at hr
  split at hr
  · next e =>
    obtain ⟨r', hr', rfl⟩ := Option.map_eq_some_iff.1 hr
    exact h run r' hr'
  · exact h id r hr

theorem start (h : q.Manned n) {run : Nat} (hs : q.start run = some (key, q')) : q'.Manned n := by
  rw [start_eq] at hs
  obtain ⟨⟨k, q1⟩, hclaim, he⟩ := Option.map_eq_some_iff.1 hs
  obtain ⟨rest, -, rfl⟩ := receive_eq_some.1 (receive_of_claim hclaim)
  cases he
  exact h.busy (f := fun active => active ++ [key]) rfl

theorem complete (h : q.Manned n) (run : Nat) (key : Key) (outcome : Except CycleError Unit) :
    (q.complete run key outcome).2.Manned n :=
  h.busy (f := fun active => active.erase key) (q.runs_complete run key outcome)

end WorkQueue.Manned

namespace Simulation

/-! ## What a site keeps to -/

/-- The hub has this configuration, and every run of a queue has this many workers. -/
structure Site.Manned (s : Site) (config : Hub.Config) (n : Nat) : Prop where
  config : s.daemon.hub.config = config
  queues : ∀ kind q, s.queue? kind = some q → q.Manned n

/-- No run of tasks ended in a panic. -/
def Site.NoPanic (s : Site) : Prop :=
  ∀ token message, s.runs.get? token ≠ some (some (.panicked message))

variable {s s' : Site} {config : Hub.Config} {n : Nat}

theorem Site.Keeps.manned (k : s.Keeps s') (h : s.Manned config n) : s'.Manned config n where
  config := k.config.trans h.config
  queues := by
    intro kind q hq
    have hruns := congrFun k.runs kind
    change (s'.queue? kind).map WorkQueue.runs = (s.queue? kind).map WorkQueue.runs at hruns
    rw [hq] at hruns
    obtain ⟨q', hq', he⟩ := Option.map_eq_some_iff.1 hruns.symm
    exact (h.queues kind q' hq').of_runs he.symm

theorem Site.Keeps.noPanic (k : s.Keeps s') (h : s.NoPanic) : s'.NoPanic := by
  unfold NoPanic
  rw [k.endings]
  exact h

theorem Site.Manned.setQueue (h : s.Manned config n) {q : WorkQueue} (hq : q.Manned n) :
    (s.setQueue q).Manned config n where
  config := h.config
  queues := by
    intro kind q' hq'
    change (s.daemon.router.queues.insert q.kind q).get? kind = some q' at hq'
    rw [Table.get?_insert] at hq'
    split at hq'
    · cases hq'
      exact hq
    · exact h.queues kind q' hq'

theorem Site.Manned.endTask (h : s.Manned config n) (token : Nat) (ending : Ending) :
    (s.endTask token ending).Manned config n := by
  unfold Site.endTask
  split
  · exact ⟨h.config, h.queues⟩
  · exact h

theorem Site.NoPanic.endTask (h : s.NoPanic) (token : Nat) : (s.endTask token .done).NoPanic := by
  unfold Site.endTask
  split
  · intro token' message hr
    change (s.runs.insert token (some .done)).get? token' = _ at hr
    rw [Table.get?_insert] at hr
    split at hr
    · cases hr
    · exact h token' message hr
  · exact h

/-! ## Steps of jobs -/

/-- The job was made for a daemon launched like this, or by a job that was. -/
def Job.Suits (l : Launch) : Job → Prop
  | .runner _ r => r.workers = l.workers
  | .reporter _ interval _ => interval = l.interval
  | _ => True

namespace Job

variable {l : Launch} {m : Moment} {turn : Turn Site Job}

/-- What a step leaves behind. Only a report without time between reports panics. -/
structure Leaves (l : Launch) (config : Hub.Config) (s : Site) (turn : Turn Site Job) : Prop where
  task : ∀ j, turn.task = some j → j.Suits l
  spawned : ∀ j ∈ turn.spawned, j.Suits l
  manned : s.Manned config (max l.workers 1) → turn.state.Manned config (max l.workers 1)
  noPanic : l.interval ≠ 0 → s.NoPanic → turn.state.NoPanic

namespace Leaves

theorem suits_none (j : Job) (h : none = some j) : j.Suits l := by
  cases h

theorem suits_nil (j : Job) (h : j ∈ []) : j.Suits l := absurd h List.not_mem_nil

theorem suits_some {j' : Job} (h : j'.Suits l) (j : Job) (hj : some j' = some j) : j.Suits l :=
  Option.some.inj hj ▸ h

theorem manned_runner {q : WorkQueue} {r : Runner} (hm : q.Manned (max l.workers 1))
    (h : r.workers = l.workers) (cancelled : Bool) :
    (r.step q cancelled).2.Manned (max l.workers 1) := by
  unfold Runner.step
  split
  · have hworkers : max r.workers 1 = max l.workers 1 := by rw [h]
    exact hm.enter hworkers
  · next run _ =>
    split
    · split
      · exact hm.leave run
      · exact hm
    · split
      · next hs => exact hm.start hs
      · exact hm

theorem of_keeps (k : s.Keeps turn.state) (htask : ∀ j, turn.task = some j → j.Suits l)
    (hspawned : turn.spawned = []) : Leaves l config s turn where
  task := htask
  spawned := by
    rw [hspawned]
    exact suits_nil
  manned := k.manned
  noPanic := fun _ => k.noPanic

theorem of_queue {kind : Kind} {q q' : WorkQueue} (hq : s.queue? kind = some q)
    (hmanned : q.Manned (max l.workers 1) → q'.Manned (max l.workers 1))
    (hstate : turn.state = s.setQueue q') (htask : ∀ j, turn.task = some j → j.Suits l)
    (hspawned : ∀ j ∈ turn.spawned, j.Suits l) : Leaves l config s turn where
  task := htask
  spawned := hspawned
  manned := by
    intro h
    rw [hstate]
    exact h.setQueue (hmanned (h.queues kind q hq))
  noPanic := by
    intro _ h
    rw [hstate]
    exact h

theorem runner (kind : Kind) {r : Runner} (h : r.workers = l.workers) :
    Leaves l config s (stepRunner s kind r) := by
  have hself : ∀ run, (Job.runner kind { r with run }).Suits l := fun _ => h
  unfold stepRunner
  cases hq : s.queue? kind with
  | none => exact of_keeps (.refl s) suits_none rfl
  | some q =>
    have hmanned := fun hm => manned_runner (q := q) hm h (s.isCancelled r.token)
    dsimp only
    generalize r.step q (s.isCancelled r.token) = p at hmanned ⊢
    obtain ⟨move, q'⟩ := p
    cases move with
    | entered run => exact of_queue hq hmanned rfl (suits_some (hself (some run))) suits_nil
    | started run key =>
      refine of_queue hq hmanned rfl (suits_some (hself r.run)) fun j hj => ?_
      rw [List.mem_singleton.1 hj]
      trivial
    | left => exact of_queue hq hmanned rfl suits_none suits_nil
    | stayed => exact of_queue hq hmanned rfl (suits_some (hself r.run)) suits_nil

theorem finishCall (run : Nat) (t : CycleTask) (outcome : Except CycleError (List Event)) :
    Leaves l config s (finishCall s run t outcome) := by
  unfold Job.finishCall
  cases hq : s.queue? t.kind with
  | none => exact of_keeps (.refl s) suits_none rfl
  | some q =>
    refine of_queue hq (fun hm => hm.complete run t.key (outcome.map fun _ => ())) rfl ?_ suits_nil
    intro j hj
    obtain ⟨d, -, rfl⟩ := Option.map_eq_some_iff.1 hj
    trivial

theorem retry (kind : Kind) (r : Simulation.Retry) :
    Leaves l config s (Job.step m s (.retry kind r)) := by
  simp only [Job.step]
  cases hq : s.queue? kind with
  | none => exact of_keeps (.refl s) suits_none rfl
  | some q =>
    refine of_queue hq (fun hm => ?_) rfl suits_none suits_nil
    unfold Simulation.Retry.step
    split
    · exact hm
    · exact hm.of_runs (WorkQueue.runs_add q r.key)

theorem reporter (token : Nat) {interval : Nat} (h : interval = l.interval) (wait : Wait) :
    Leaves l config s (Job.step m s (.reporter token interval wait)) := by
  simp only [Job.step]
  split
  · exact of_keeps (.refl s) suits_none rfl
  · split
    · next hzero =>
      exact ⟨suits_none, suits_nil, fun hm => hm.endTask token _, fun hne => absurd (h ▸ hzero) hne⟩
    · exact of_keeps ⟨rfl, rfl, rfl⟩ (suits_some h) rfl

theorem step {j : Job} (h : j.Suits l) : Leaves l config s (j.step m s) := by
  cases j with
  | cycle t => exact of_keeps (.cycle m s t) (suits_some trivial) rfl
  | replay t => exact of_keeps (.replay m s t) (suits_some trivial) rfl
  | join t =>
    have htask :
        (Job.step m s (.join t)).task = some (((t.step m s).2.map Job.join).getD .stopped) :=
      rfl
    refine of_keeps (.join m s t) (htask ▸ suits_some ?_) rfl
    cases (t.step m s).2 <;> trivial
  | stopped => exact of_keeps (.refl s) (suits_some trivial) rfl
  | runner kind r => exact runner kind h
  | call run t =>
    simp only [Job.step]
    cases t.outcome? with
    | some outcome => exact finishCall run t outcome
    | none => exact of_keeps (.cycle m s t) (suits_some trivial) rfl
  | delayed kind key token delay => exact of_keeps (.refl s) (suits_some trivial) rfl
  | retry kind r => exact retry kind r
  | watch t =>
    refine of_keeps (.watch m s t) ?_ rfl
    intro j hj
    obtain ⟨t', -, rfl⟩ := Option.map_eq_some_iff.1 hj
    trivial
  | listener token bound =>
    exact ⟨suits_none, suits_nil, fun hm => hm.endTask token _, fun _ hc => hc.endTask token⟩
  | reporter token interval wait => exact reporter token h wait

end Leaves

end Job

end Simulation

/-! ## Tasks that are started together -/

namespace Schedule

variable {σ τ : Type}

theorem state_spawnAll (s : Schedule σ τ) (ts : List τ) : (s.spawnAll ts).state = s.state := by
  induction ts generalizing s with
  | nil => rfl
  | cons t rest ih => exact ih (s.spawn t).2

theorem task_spawnAll {s : Schedule σ τ} {ts : List τ} {i : Nat} {t : τ}
    (h : (s.spawnAll ts).task? i = some t) : t ∈ ts ∨ s.task? i = some t := by
  induction ts generalizing s with
  | nil => exact Or.inr h
  | cons t' rest ih =>
    rcases ih (s := (s.spawn t').2) h with hrest | hs
    · exact Or.inl (List.mem_cons_of_mem _ hrest)
    · change (s.tasks.insert s.nextTask t').get? i = some t at hs
      rw [Table.get?_insert] at hs
      split at hs
      · cases hs
        exact Or.inl List.mem_cons_self
      · exact Or.inr hs

theorem exists_task_spawnAll (s : Schedule σ τ) (ts : List τ) (t : τ) :
    ∃ i, (s.spawnAll (ts ++ [t])).task? i = some t := by
  refine ⟨(s.spawnAll ts).nextTask, ?_⟩
  unfold spawnAll
  rw [List.foldl_append]
  exact Table.get?_insert_self _ _ _

end Schedule

namespace Simulation

/-! ## Runs -/

namespace SiteRun

variable {s s' : SiteRun} {l : Launch} {config : Hub.Config}

/-- What a step of the task leaves behind. -/
def after (s : SiteRun) (i : Nat) (j : Job) : SiteRun :=
  let turn := j.step ⟨s.now, s.stamp⟩ s.state
  let tasks := match turn.task with
    | some j => s.tasks.insert i j
    | none => s.tasks.erase i
  Schedule.spawnAll { s with state := turn.state, stamp := s.stamp + 1, tasks } turn.spawned

theorem state_after (s : SiteRun) (i : Nat) (j : Job) :
    (s.after i j).state = (j.step ⟨s.now, s.stamp⟩ s.state).state := Schedule.state_spawnAll _ _

/-- What can happen to a launched daemon. -/
inductive Happens (s : SiteRun) : SiteRun → Prop where
  /-- A task that can go on takes a step, whoever is first in line. -/
  | turn (i : Nat) (j : Job) : s.task? i = some j → j.isReady s.now s.state = true →
      Happens s (s.after i j)
  | line (line : List Nat) : Happens s { s with line }
  | time (now : Nat) : Happens s { s with now }
  /-- Something comes from the side of the nodes. -/
  | wish (wish : World.Wish) :
      Happens s { s with state := s.state.setHub (World.grant s.state.daemon.hub wish) }
  /-- Something changes on the side of the cluster. -/
  | cluster (cluster : Cluster) (server : Server) (resolutions : Trouble) :
      Happens s { s with state := { s.state with cluster, server, resolutions } }
  | cancel (token : Nat) : Happens s { s with state := s.state.cancel token }
  /-- A signal ends the run. -/
  | interrupt (token : Nat) : Happens s { s with state := s.state.endTask token .done }

/-- One comes to the other by whatever can happen. -/
def Leads : SiteRun → SiteRun → Prop := Relation.ReflTransGen Happens

/-- All jobs and all runs of queues are as the launch made them. -/
structure Sane (l : Launch) (config : Hub.Config) (s : SiteRun) : Prop where
  jobs : ∀ i j, s.task? i = some j → j.Suits l
  site : s.state.Manned config (max l.workers 1)
  noPanic : l.interval ≠ 0 → s.state.NoPanic

theorem config_grant (h : Hub Event) (wish : World.Wish) :
    (World.grant h wish).config = h.config := by
  cases wish with
  | leave g =>
    change (h.drop g).config = h.config
    unfold Hub.drop
    split
    · rfl
    · exact Hub.config_disconnect _ _ _
  | receive g =>
    change (h.receive g).2.config = h.config
    unfold Hub.receive
    split <;> rfl
  | _ => rfl

theorem Sane.keeps (h : s.Sane l config) {site : Site} (k : s.state.Keeps site) :
    Sane l config { s with state := site } :=
  ⟨h.jobs, k.manned h.site, fun hne => k.noPanic (h.noPanic hne)⟩

theorem Sane.after (h : s.Sane l config) {i : Nat} {j : Job} (hj : s.task? i = some j) :
    (s.after i j).Sane l config := by
  have left : Job.Leaves l config s.state (j.step ⟨s.now, s.stamp⟩ s.state) := .step (h.jobs i j hj)
  refine ⟨fun i' j' hj' => ?_, ?_, ?_⟩
  · rcases Schedule.task_spawnAll hj' with hspawned | hold
    · exact left.spawned j' hspawned
    · dsimp only [Schedule.task?] at hold
      split at hold
      · next j1 htask =>
        rw [Table.get?_insert] at hold
        split at hold
        · cases hold
          exact left.task _ htask
        · exact h.jobs i' j' hold
      · rw [Table.get?_erase] at hold
        split at hold
        · cases hold
        · exact h.jobs i' j' hold
  · rw [state_after]
    exact left.manned h.site
  · intro hne
    rw [state_after]
    exact left.noPanic hne (h.noPanic hne)

theorem Sane.happens (h : s.Sane l config) (hs : s.Happens s') : s'.Sane l config := by
  cases hs with
  | turn i j hj => exact h.after hj
  | line line => exact ⟨h.jobs, h.site, h.noPanic⟩
  | time now => exact ⟨h.jobs, h.site, h.noPanic⟩
  | wish wish => exact h.keeps ⟨config_grant _ wish, rfl, rfl⟩
  | cluster cluster server resolutions => exact h.keeps ⟨rfl, rfl, rfl⟩
  | cancel token => exact h.keeps ⟨rfl, rfl, rfl⟩
  | interrupt token =>
    exact ⟨h.jobs, h.site.endTask token _, fun hne => (h.noPanic hne).endTask token⟩

theorem Sane.leads (h : s.Sane l config) (hs : s.Leads s') : s'.Sane l config := by
  induction hs with
  | refl => exact h
  | tail _ hlast ih => exact ih.happens hlast

/-! ## The schedule is one of the orders -/

theorem leads_lineUp (s : SiteRun) : s.Leads (s.lineUp Job.behavior) := .single (.line _)

theorem leads_turn (s : SiteRun) : s.Leads (s.turn Job.behavior) := by
  unfold Schedule.turn
  split
  · exact .refl
  · next i rest _ =>
    split
    · exact .single (.line rest)
    · next j hj =>
      obtain ⟨hj, hready⟩ := Option.filter_eq_some_iff.1 hj
      have hleads := (leads_lineUp (s.after i j)).head (.turn i j hj hready)
      unfold SiteRun.after at hleads
      dsimp only [Job.behavior] at hleads ⊢
      cases htask : (j.step ⟨s.now, s.stamp⟩ s.state).task with
      | none =>
        rw [htask] at hleads
        exact hleads
      | some j' =>
        rw [htask] at hleads
        exact hleads

theorem leads_settle (s : SiteRun) : s.Leads s.settle := by
  have hwithin : ∀ n (s : SiteRun), s.Leads (s.settleWithin Job.behavior n) := by
    intro n
    induction n with
    | zero => exact fun _ => .refl
    | succ n ih =>
      intro s
      unfold Schedule.settleWithin
      split
      · exact .refl
      · exact (leads_turn s).trans (ih _)
  exact (leads_lineUp s).trans (hwithin Schedule.bound _)

theorem leads_advance (s : SiteRun) (wait : Nat) : s.Leads (s.advance wait) := by
  have hmove : ∀ (s : SiteRun) time, s.Leads (s.moveTo Job.behavior time) :=
    fun s time => (leads_settle { s with now := time }).head (.time time)
  have hwithin : ∀ target n (s : SiteRun), s.Leads (s.advanceWithin Job.behavior target n) := by
    intro target n
    induction n with
    | zero => exact fun _ => .refl
    | succ n ih =>
      intro s
      unfold Schedule.advanceWithin
      split
      · exact (hmove s _).trans (ih _)
      · exact hmove s target
  exact (leads_settle s).trans (hwithin (s.now + wait) Schedule.bound _)

end SiteRun

end Simulation

end Nodecast
