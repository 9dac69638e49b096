import Nodecast.Proofs.Backlog.Retries
import Nodecast.Proofs.System.Returns
import Nodecast.Proofs.System.Runs

/-!
# The workers of a queue

Workers take the keys of a kind from its queue and begin a cycle for each. What the cycle returns is
what the queue is told of the call. Meanwhile anything else may happen.
-/

namespace Nodecast

/-! ## Calls under way -/

namespace Backlog

variable {s s' : Backlog} {run run' : Nat} {key key' : Key} {a : Action}

/-- How many calls for the key a run has under way. -/
def active (s : Backlog) (run : Nat) (key : Key) : Nat :=
  ((s.queue.runs.get? run).map fun r => r.active.count key).getD 0

theorem isBusy_iff : s.isBusy run key = true ↔ 0 < s.active run key := by
  unfold isBusy active
  cases s.queue.runs.get? run with
  | none => simp
  | some r => simp [List.count_pos_iff]

def Action.completes : Action → Bool
  | .complete .. => true
  | _ => false

/-- Runs are numbered in order. -/
def Numbered (s : Backlog) : Prop :=
  ∀ run r, s.queue.runs.get? run = some r → run < s.queue.nextRun

theorem runs_ask (s : Backlog) (key : Key) : (s.ask key).queue.runs = s.queue.runs ∧
    (s.ask key).queue.nextRun = s.queue.nextRun := by
  rw [ask_eq]
  split
  · exact ⟨rfl, rfl⟩
  · next h => simp [WorkQueue.mark, h]

theorem runs_ring (s : Backlog) (r : Retry) : (s.ring r).queue.runs = s.queue.runs ∧
    (s.ring r).queue.nextRun = s.queue.nextRun := runs_ask _ r.key

theorem active_of_runs (h : s'.queue.runs = s.queue.runs) :
    s'.active run key = s.active run key := by
  rw [active, active, h]

theorem active_start : s.active run key ≤ (s.start run' key').active run key := by
  unfold active
  show _ ≤ (Option.map _ ((s.queue.runs.modify run' _).get? run)).getD 0
  rw [Table.get?_modify]
  split
  · next h =>
    subst h
    cases s.queue.runs.get? run with
    | none => exact Nat.le_refl _
    | some r => simp [List.count_append]
  · exact Nat.le_refl _

theorem active_enter (hn : s.Numbered) (workers : Nat) :
    s.active run key ≤
      active { s with queue := (s.queue.enter workers).2 } run key := by
  unfold active
  show _ ≤ (Option.map _ ((s.queue.runs.insert s.queue.nextRun _).get? run)).getD 0
  cases hr : s.queue.runs.get? run with
  | none => exact Nat.zero_le _
  | some r =>
    exact Nat.le_of_eq (by rw [Table.get?_insert_of_ne _ _ (Nat.ne_of_lt (hn run r hr)), hr])

theorem active_complete (s : Backlog) (run' : Nat) (key' : Key) (outcome : Except CycleError Unit)
    (hbusy : s.isBusy run key = true) :
    (s.complete run key outcome).active run' key' + (if run = run' ∧ key = key' then 1 else 0) =
      s.active run' key' := by
  obtain ⟨r, hr, hk⟩ := (Option.any_eq_true _ _).1 hbusy
  have hmem : key ∈ r.active := by simpa using hk
  have hruns : (s.complete run key outcome).queue.runs =
      s.queue.runs.modify run fun r => { r with active := r.active.erase key } :=
    s.queue.runs_complete run key outcome
  rw [active, active, hruns, Table.get?_modify]
  by_cases hrun : run' = run
  · subst hrun
    have hcount := (List.perm_cons_erase hmem).count_eq key'
    simp only [List.count_cons, beq_iff_eq] at hcount
    simp [hr, hcount]
  · simp [hrun, Ne.symm hrun]

theorem active_step (hn : s.Numbered) (hs : s.step a = some s') (ha : a.completes = false) :
    s.active run key ≤ s'.active run key := by
  cases does_of_step hs with
  | complete => contradiction
  | enter workers => exact active_enter hn workers
  | start run' key' => exact active_start
  | ask k => exact Nat.le_of_eq (active_of_runs (runs_ask s k).1).symm
  | ring r => exact Nat.le_of_eq (active_of_runs (runs_ring s r).1).symm
  | send | receive | wait => exact Nat.le_refl _

theorem Numbered.of_modify {f : WorkQueue.Run → WorkQueue.Run} (hn : s.Numbered)
    (hruns : s'.queue.runs = s.queue.runs.modify run f)
    (hnext : s'.queue.nextRun = s.queue.nextRun) : s'.Numbered := by
  intro run' r hr
  rw [hruns, Table.get?_modify] at hr
  rw [hnext]
  split at hr
  · next h =>
    subst h
    obtain ⟨r', hr', -⟩ := Option.map_eq_some_iff.1 hr
    exact hn _ r' hr'
  · exact hn _ r hr

theorem Numbered.of_same (hn : s.Numbered) (h : s'.queue.runs = s.queue.runs ∧
    s'.queue.nextRun = s.queue.nextRun) : s'.Numbered := by
  intro run r hr
  rw [h.1] at hr
  exact h.2 ▸ hn run r hr

theorem Numbered.step (hn : s.Numbered) (hs : s.step a = some s') : s'.Numbered := by
  cases does_of_step hs with
  | start run key => exact hn.of_modify rfl rfl
  | complete run key outcome =>
    refine hn.of_modify (s.queue.runs_complete run key outcome) ?_
    show (s.queue.complete run key outcome).2.nextRun = _
    rw [WorkQueue.complete_eq, WorkQueue.finish_eq]
    cases WorkQueue.isRetryable outcome <;> rfl
  | enter workers =>
    intro run r hr
    show _ < s.queue.nextRun + 1
    change (s.queue.runs.insert _ _).get? run = some r at hr
    rw [Table.get?_insert] at hr
    split at hr
    · next h => exact h ▸ Nat.lt_succ_self _
    · exact Nat.lt_succ_of_lt (hn run r hr)
  | ask k => exact hn.of_same (runs_ask s k)
  | ring r => exact hn.of_same (runs_ring s r)
  | send | receive | wait => exact hn.of_same ⟨rfl, rfl⟩

end Backlog

/-! ## The state -/

/-- A call that a run makes for a key. -/
structure Crew.Call where
  run : Nat
  key : Key
deriving DecidableEq

structure Crew where
  kind : Kind
  world : World
  backlog : Backlog
  /-- The calls that have begun a cycle and are not over, each by the task of its cycle. -/
  calls : Table Nat Crew.Call := ∅

namespace World

variable {w w' : World} {a : Action} {i : Nat} {outcome : Except CycleError (List Event)}

/-- What the cycle has returned. -/
def outcome? (w : World) (i : Nat) : Option (Except CycleError (List Event)) := do
  let t ← w.tasks.get? i
  match t.activity with
  | .cycle y => y.outcome?
  | .replay _ => none

theorem outcome?_of_cycle {t : Task} {y : Cycle} (ht : w.tasks.get? i = some t)
    (ha : t.activity = .cycle y) : w.outcome? i = y.outcome? := by
  rw [outcome?, ht]
  simp [ha]

theorem outcome?_of_get? (h : w'.tasks.get? i = w.tasks.get? i) : w'.outcome? i = w.outcome? i := by
  rw [outcome?, h, outcome?]

theorem nextTask_step (h : w.step a = some w') : w.nextTask ≤ w'.nextTask := by
  cases step_of_step h with
  | reconcile | join | cycle | replay => exact Nat.le_max_left _ _
  | wish => exact Nat.le_refl _

theorem outcome?_step (S : w.Sound) (h : w.step a = some w') (ho : w.outcome? i = some outcome) :
    w'.outcome? i = some outcome := by
  obtain ⟨t, ht, hy⟩ := Option.bind_eq_some_iff.1 ho
  have hnew : i ≠ w.nextTask := Nat.ne_of_lt (S.begun ht).1
  rw [← ho]
  refine outcome?_of_get? ?_
  cases step_of_step h with
  | reconcile key hc => rw [beginCycle, get?_tasks_advance, if_neg hnew]
  | join hc hj => rw [beginReplay, get?_tasks_advance, if_neg hnew]
  | @cycle j u c c' y y' m hub commit made hu hc hz hm =>
    rw [get?_tasks_advance, if_neg]
    rintro rfl
    rw [outcome?_of_cycle hu hz, Cycle.outcome?_eq_some] at ho
    have hforward := (Collector.moveCycle_step hm).forward.2
    simp [Cycle.phase, Cycle.toPush, ho] at hforward
  | @replay j u c c' r r' m hub commit cancelled hu hc hz hm =>
    rw [get?_tasks_advance, if_neg]
    rintro rfl
    rw [ht, Option.some.injEq] at hu
    simp [hu, hz] at hy
  | wish => rfl

theorem Reachable.outcome?_run {as : List Action} (h : Reachable w)
    (ho : w.outcome? i = some outcome) (hr : w.run as = some w') :
    w'.outcome? i = some outcome := by
  refine (foldlM_keeps (P := fun w => Reachable w ∧ w.outcome? i = some outcome) ⟨h, ho⟩ hr ?_).2
  exact fun a _ _ _ ⟨h, ho⟩ hs => ⟨h.step a hs, outcome?_step h.sound hs ho⟩

end World

namespace Crew

inductive Action where
  /-- Something happens that is no matter of the queue. -/
  | world (a : World.Action)
  /-- Something happens in the queue. No call ends by it. -/
  | queue (a : Backlog.Action)
  /-- A call that is under way begins its cycle. -/
  | begin (call : Call)
  /-- The cycle of a call has returned, and the call is over. -/
  | finish (task : Nat)

/-- How many of these calls have begun a cycle. -/
def begun (s : Crew) (call : Call) : Nat := s.calls.weigh fun c => if c = call then 1 else 0

def step (s : Crew) : Action → Option Crew
  | .world a => (s.world.step a).map fun world => { s with world }
  | .queue a =>
    if a.completes then none else (s.backlog.step a).map fun backlog => { s with backlog }
  | .begin call =>
    if s.begun call < s.backlog.active call.run call.key then
      (s.world.step (.reconcile s.kind call.key)).map fun world =>
        { s with world, calls := s.calls.insert s.world.nextTask call }
    else none
  | .finish i => do
    let call ← s.calls.get? i
    let outcome ← s.world.outcome? i
    let backlog ← s.backlog.step (.complete call.run call.key (outcome.map fun _ => ()))
    return { s with backlog, calls := s.calls.erase i }

def run (s : Crew) (as : List Action) : Option Crew := as.foldlM step s

/-- At first the daemon knows nothing, and the queue is empty. -/
def start (kind : Kind) (backoff : Backoff) (settings : Settings) : Crew :=
  { kind, world := .start settings, backlog := .fresh kind backoff }

inductive Reachable : Crew → Prop where
  | start (kind : Kind) (backoff : Backoff) (settings : Settings) :
      Reachable (start kind backoff settings)
  | step {s s' : Crew} (a : Action) : Reachable s → s.step a = some s' → Reachable s'

variable {s s' : Crew} {a : Action} {as : List Action} {call : Call} {i : Nat}

/-! ## The system within -/

/-- What an action is to the system. -/
def Action.world? (kind : Kind) : Action → Option World.Action
  | .world a => some a
  | .begin call => some (.reconcile kind call.key)
  | .queue _ | .finish _ => none

/-- All that happens in the system. -/
def worldActions (kind : Kind) (as : List Action) : List World.Action :=
  as.filterMap (Action.world? kind)

/-- What a step comes to. -/
inductive Does (s : Crew) : Action → Crew → Prop where
  | world {w : World} (a : World.Action) : s.world.step a = some w →
      s.Does (.world a) { s with world := w }
  | queue {b : Backlog} (a : Backlog.Action) : a.completes = false → s.backlog.step a = some b →
      s.Does (.queue a) { s with backlog := b }
  | begin {w : World} (call : Call) : s.begun call < s.backlog.active call.run call.key →
      s.world.step (.reconcile s.kind call.key) = some w →
      s.Does (.begin call) { s with world := w, calls := s.calls.insert s.world.nextTask call }
  | finish {b : Backlog} (i : Nat) (call : Call) (outcome : Except CycleError (List Event)) :
      s.calls.get? i = some call → s.world.outcome? i = some outcome →
      s.backlog.step (.complete call.run call.key (outcome.map fun _ => ())) = some b →
      s.Does (.finish i) { s with backlog := b, calls := s.calls.erase i }

theorem does_of_step (h : s.step a = some s') : s.Does a s' := by
  cases a with
  | world a =>
    obtain ⟨w, hw, rfl⟩ := Option.map_eq_some_iff.1 h
    exact .world a hw
  | queue a =>
    obtain ⟨ha, h⟩ := Option.ite_none_left_eq_some.1 h
    obtain ⟨b, hb, rfl⟩ := Option.map_eq_some_iff.1 h
    exact .queue a (by simpa using ha) hb
  | begin call =>
    obtain ⟨hlt, h⟩ := Option.ite_none_right_eq_some.1 h
    obtain ⟨w, hw, rfl⟩ := Option.map_eq_some_iff.1 h
    exact .begin call hlt hw
  | finish i =>
    obtain ⟨call, hcall, h⟩ := Option.bind_eq_some_iff.1 h
    obtain ⟨outcome, ho, h⟩ := Option.bind_eq_some_iff.1 h
    obtain ⟨b, hb, h⟩ := Option.bind_eq_some_iff.1 h
    cases h
    exact .finish i call outcome hcall ho hb

theorem run_world (h : s.run as = some s') :
    s.world.run (worldActions s.kind as) = some s'.world := by
  induction as generalizing s with
  | nil =>
    cases h
    rfl
  | cons a rest ih =>
    obtain ⟨s1, h1, hrest⟩ := Option.bind_eq_some_iff.1 h
    have hsame := ih hrest
    cases does_of_step h1 with
    | world a hw => exact Option.bind_eq_some_iff.2 ⟨_, hw, hsame⟩
    | begin call hlt hw => exact Option.bind_eq_some_iff.2 ⟨_, hw, hsame⟩
    | queue | finish => exact hsame

/-! ## What holds between steps -/

theorem nextTask_reconcile {w w' : World} {kind : Kind} {key : Key}
    (h : w.step (.reconcile kind key) = some w') : w.nextTask < w'.nextTask := by
  obtain ⟨c, -, rfl⟩ := Option.map_eq_some_iff.1 h
  exact Nat.le_max_right _ _

structure Valid (s : Crew) : Prop where
  world : s.world.Reachable
  backlog : s.backlog.Valid
  numbered : s.backlog.Numbered
  begun : ∀ {i call}, s.calls.get? i = some call → i < s.world.nextTask
  busy : ∀ call, s.begun call ≤ s.backlog.active call.run call.key

theorem valid_start (kind : Kind) (backoff : Backoff) (settings : Settings) :
    (start kind backoff settings).Valid where
  world := .start settings
  backlog := Backlog.valid_fresh kind backoff
  numbered := nofun
  begun := nofun
  busy := fun _ => Nat.zero_le _

theorem begun_of_get? (s : Crew) (call' : Call) (hcall : s.calls.get? i = some call) :
    s.begun call' = (if call = call' then 1 else 0) +
      (s.calls.erase i).weigh fun c => if c = call' then 1 else 0 := Table.weigh_eq _ hcall

theorem Valid.of_begin {w : World} (v : s.Valid)
    (hlt : s.begun call < s.backlog.active call.run call.key)
    (hw : s.world.step (.reconcile s.kind call.key) = some w) :
    Valid { s with world := w, calls := s.calls.insert s.world.nextTask call } where
  world := v.world.step _ hw
  backlog := v.backlog
  numbered := v.numbered
  begun := by
    intro i call' hcall
    rw [Table.get?_insert] at hcall
    split at hcall
    · next h => exact h ▸ nextTask_reconcile hw
    · exact Nat.lt_trans (v.begun hcall) (nextTask_reconcile hw)
  busy := by
    intro call'
    have hnone : s.calls.get? s.world.nextTask = none :=
      Option.eq_none_iff_forall_ne_some.2 fun _ h => Nat.lt_irrefl _ (v.begun h)
    rw [Crew.begun, Table.weigh_insert_new _ _ hnone]
    split
    · next h =>
      subst h
      exact Nat.add_comm .. ▸ hlt
    · exact (Nat.zero_add _).symm ▸ v.busy call'

theorem Valid.of_finish {b : Backlog} {outcome : Except CycleError Unit} (v : s.Valid)
    (hcall : s.calls.get? i = some call)
    (hb : s.backlog.step (.complete call.run call.key outcome) = some b) :
    Valid { s with backlog := b, calls := s.calls.erase i } where
  world := v.world
  backlog := v.backlog.step hb
  numbered := v.numbered.step hb
  begun := by
    intro j call' h
    rw [Table.get?_erase] at h
    split at h
    · contradiction
    · exact v.begun h
  busy := by
    intro call'
    obtain ⟨hbusy, hb⟩ := Option.ite_none_right_eq_some.1 hb
    cases hb
    have hbegun := s.begun_of_get? call' hcall
    have hactive := s.backlog.active_complete call'.run call'.key outcome hbusy
    have hle := v.busy call'
    have hsame : call = call' ↔ call.run = call'.run ∧ call.key = call'.key :=
      (Call.mk.injEq ..).to_iff
    simp only [hsame] at hbegun
    show (s.calls.erase i).weigh _ ≤ (s.backlog.complete _ _ _).active _ _
    omega

theorem Valid.step (v : s.Valid) (h : s.step a = some s') : s'.Valid := by
  cases does_of_step h with
  | world a hw =>
    exact { v with
      world := v.world.step a hw
      begun := fun hcall => Nat.lt_of_lt_of_le (v.begun hcall) (World.nextTask_step hw) }
  | queue a ha hb =>
    exact { v with
      backlog := v.backlog.step hb
      numbered := v.numbered.step hb
      busy := fun call => Nat.le_trans (v.busy call) (Backlog.active_step v.numbered hb ha) }
  | begin call hlt hw => exact v.of_begin hlt hw
  | finish i call outcome hcall ho hb => exact v.of_finish hcall hb

theorem Valid.run (v : s.Valid) (hr : s.run as = some s') : s'.Valid :=
  foldlM_keeps v hr fun _ _ _ _ v hs => v.step hs

theorem Reachable.run (h : Reachable s) (hr : s.run as = some s') : Reachable s' :=
  foldlM_keeps h hr fun a _ _ _ h hs => .step a h hs

theorem Reachable.valid (h : Reachable s) : s.Valid := by
  induction h with
  | start kind backoff settings => exact valid_start kind backoff settings
  | step a _ hs v => exact v.step hs

/-! ## One call -/

theorem calls_step (v : s.Valid) (hcall : s.calls.get? i = some call) (h : s.step a = some s')
    (hne : a ≠ .finish i) : s'.calls.get? i = some call := by
  cases does_of_step h with
  | world | queue => exact hcall
  | begin call' => rw [Table.get?_insert_of_ne _ _ (Nat.ne_of_lt (v.begun hcall)), hcall]
  | finish j =>
    rw [Table.get?_erase_of_ne _ fun e => hne (congrArg Action.finish e.symm), hcall]

theorem calls_run (v : s.Valid) (hcall : s.calls.get? i = some call) (hr : s.run as = some s')
    (hno : .finish i ∉ as) : s'.calls.get? i = some call := by
  refine (foldlM_keeps (P := fun s => s.Valid ∧ s.calls.get? i = some call) ⟨v, hcall⟩ hr ?_).2
  intro a ha s s' ⟨v, hcall⟩ hs
  exact ⟨v.step hs, calls_step v hcall hs fun he => hno (he ▸ ha)⟩

theorem outcome?_run {outcome : Except CycleError (List Event)} (v : s.Valid)
    (ho : s.world.outcome? i = some outcome) (hr : s.run as = some s') :
    s'.world.outcome? i = some outcome := v.world.outcome?_run ho (run_world hr)

/-- A call is over only when its cycle has returned. -/
theorem finish_not_mem (v : s.Valid) (hr : s.run as = some s') (ho : s'.world.outcome? i = none) :
    .finish i ∉ as := by
  induction as generalizing s with
  | nil => exact List.not_mem_nil
  | cons a rest ih =>
    obtain ⟨s1, h1, hrest⟩ := Option.bind_eq_some_iff.1 hr
    intro hmem
    obtain rfl := (List.mem_cons.1 hmem).resolve_right (ih (v.step h1) hrest)
    cases does_of_step h1 with
    | finish _ call outcome hcall ho' hb =>
      have hended := outcome?_run (v.step h1) ho' hrest
      rw [ho] at hended
      contradiction

/-! ## Retries -/

/-- Whatever happens, the key of the retry waits for a worker again when its time comes. -/
def Schedules (s : Crew) (r : Backlog.Retry) : Prop :=
  ∀ as s', s.run as = some s' → (r ∈ s'.backlog.timers ∧ s'.backlog.now ≤ r.due) ∨
    ∃ before after s1 s2, as = before ++ .queue (.ring r) :: after ∧ s.run before = some s1 ∧
      s1.backlog.now = r.due ∧ s1.step (.queue (.ring r)) = some s2 ∧
      s2.backlog.queue.contains r.key = true

theorem timers_step {r : Backlog.Retry} (hr : r ∈ s.backlog.timers) (h : s.step a = some s')
    (hne : a ≠ .queue (.ring r)) : r ∈ s'.backlog.timers := by
  cases does_of_step h with
  | world | begin => exact hr
  | queue a ha hb => exact Backlog.mem_timers_step hr hb fun e => hne (congrArg _ e)
  | finish i call outcome hcall ho hb => exact Backlog.mem_timers_step hr hb nofun

theorem Valid.schedules {r : Backlog.Retry} (v : s.Valid) (hr : r ∈ s.backlog.timers) :
    s.Schedules r := by
  intro as s' hs
  induction as generalizing s with
  | nil =>
    cases hs
    exact .inl ⟨hr, v.backlog.due r hr⟩
  | cons a rest ih =>
    obtain ⟨s1, h1, hrest⟩ := Option.bind_eq_some_iff.1 hs
    by_cases ha : a = .queue (.ring r)
    · subst ha
      cases does_of_step h1 with
      | queue _ ha hb =>
        obtain ⟨⟨-, hd⟩, hring⟩ := Option.ite_none_right_eq_some.1 hb
        cases hring
        exact .inr ⟨[], rest, s, _, rfl, rfl, Nat.le_antisymm (v.backlog.due r hr) hd, h1,
          Backlog.contains_ring s.backlog r⟩
    · rcases ih (v.step h1) (timers_step hr h1 ha) hrest with hkept | hrung
      · exact .inl hkept
      · obtain ⟨before, after, s2, s3, rfl, hbefore, hrung⟩ := hrung
        exact .inr ⟨a :: before, after, s2, s3, rfl, Option.bind_eq_some_iff.2 ⟨s1, h1, hbefore⟩,
          hrung⟩

/-- Whenever the call ends, its key is to be tried again after a delay. -/
def Retries (s : Crew) (i : Nat) (key : Key) : Prop :=
  ∀ as s', s.run as = some s' → .finish i ∉ as → ∃ s'', s'.step (.finish i) = some s'' ∧
    s''.world = s'.world ∧ s''.Schedules ⟨key, s'.backlog.now +
      (Backlog.delayAfter s'.backlog.queue.backoff
        (Backlog.streak key s'.backlog.log + 1)).total⟩

theorem Valid.finish {e : CycleError} (v : s.Valid) (hcall : s.calls.get? i = some call)
    (ho : s.world.outcome? i = some (.error e)) (he : e.isRetryable = true) :
    ∃ s', s.step (.finish i) = some s' ∧ s'.world = s.world ∧
      s'.Schedules ⟨call.key, s.backlog.now +
        (Backlog.delayAfter s.backlog.queue.backoff
          (Backlog.streak call.key s.backlog.log + 1)).total⟩ := by
  have hbusy : s.backlog.isBusy call.run call.key = true := by
    have hbegun := s.begun_of_get? call hcall
    rw [if_pos rfl] at hbegun
    exact Backlog.isBusy_iff.2 (Nat.lt_of_lt_of_le (by omega) (v.busy call))
  have hfails : WorkQueue.isRetryable (.error e) = true := he
  have hstep : s.step (.finish i) = some { s with
      backlog := s.backlog.complete call.run call.key (.error e), calls := s.calls.erase i } := by
    simp [Crew.step, hcall, ho, Backlog.step, hbusy, Except.map]
  refine ⟨_, hstep, rfl, (v.step hstep).schedules ?_⟩
  show _ ∈ (s.backlog.complete call.run call.key (.error e)).timers
  rw [Backlog.timers_complete, if_pos hfails, v.backlog.delay_eq]
  exact List.mem_cons_self

theorem Valid.retries {e : CycleError} (v : s.Valid) (hcall : s.calls.get? i = some call)
    (ho : s.world.outcome? i = some (.error e)) (he : e.isRetryable = true) :
    s.Retries i call.key := by
  intro as s' hr hno
  have v' := v.run hr
  exact v'.finish (calls_run v hcall hr hno) (outcome?_run v ho hr) he

end Crew

end Nodecast
