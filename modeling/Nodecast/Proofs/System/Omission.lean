import Nodecast.Proofs.System.Deeds
import Nodecast.Proofs.System.Renamed

/-!
# Runs without one cycle

A cycle that does nothing can be left out of a run. What is numbered after it gets a smaller number,
and everything else is as before.
-/

namespace Nodecast

/-! ## States that are alike -/

/-- A cycle that is left out, and its call for the lock. -/
structure Omission where
  task : Nat
  kind : Kind
  ticket : Nat

namespace Omission

variable (x : Omission)

/-- What the calls for locks are numbered with the cycle. -/
def call (kind : Kind) : Nat → Nat := if kind = x.kind then past x.ticket else id

theorem increasing_call (kind : Kind) : Increasing (x.call kind) := by
  unfold call
  split
  · exact increasing_past x.ticket
  · exact increasing_id

open World (Action)

/-- Other tasks that began after the cycle have the number before theirs. -/
def act? : Action → Option Action
  | .cycle i m => if i = x.task then none else some (.cycle (fore x.task i) m)
  | .replay i m => if i = x.task then none else some (.replay (fore x.task i) m)
  | a => some a

/-- The run without the steps of the cycle. -/
def run (as : List Action) : List Action := as.filterMap x.act?

theorem run_append (as bs : List Action) :
    x.run (as ++ bs) = x.run as ++ x.run bs := List.filterMap_append

theorem run_single {a b : Action} (h : x.act? a = some b) : x.run [a] = [b] :=
  List.filterMap_cons_some h

theorem run_own (m : Cycle.Move) : x.run [.cycle x.task m] = [] :=
  List.filterMap_cons_none (if_pos rfl)

end Omission

structure Collector.Alike (f : Nat → Nat) (c d : Collector) : Prop where
  same : d = { c with locks := d.locks }
  locks : c.locks.Alike f d.locks

structure Task.Alike (x : Omission) (t u : Task) : Prop where
  kind : u.kind = t.kind
  activity : t.activity = u.activity.rename (x.call t.kind)

namespace World

/-- The second state is the first without the cycle. -/
structure Alike (x : Omission) (w v : World) : Prop where
  hub : v.hub = w.hub
  index : v.index = w.index
  router : v.router = w.router
  collectors : ∀ kind, Option.Rel (Collector.Alike (x.call kind)) (w.collectors.get? kind)
    (v.collectors.get? kind)
  tasks : ∀ i, Option.Rel (Task.Alike x) (w.tasks.get? (past x.task i)) (v.tasks.get? i)
  next : ∀ n, past x.task (v.nextTask + n) = w.nextTask + n

end World

theorem exists_of_rel {α β : Type} {r : α → β → Prop} {a : α} {b? : Option β}
    (h : Option.Rel r (some a) b?) : ∃ b, b? = some b ∧ r a b := by
  cases h with
  | some hr => exact ⟨_, rfl, hr⟩

namespace World

variable {x : Omission} {w w' v v' : World} {i : Nat} {t u : Task} {c c' d : Collector}
  {key : Key} {kind : Kind} {y y' : Cycle} {r r' : Replay}
  {hub : Hub Event} {made made' : List Commit} {a : Action}

namespace Alike

theorem collector (A : w.Alike x v) (hc : w.collectors.get? kind = some c) :
    ∃ d, v.collectors.get? kind = some d ∧ c.Alike (x.call kind) d := by
  have hrel := A.collectors kind
  rw [hc] at hrel
  exact exists_of_rel hrel

theorem task (A : w.Alike x v) (ht : w.tasks.get? (past x.task i) = some t) :
    ∃ u, v.tasks.get? i = some u ∧ t.Alike x u := by
  have hrel := A.tasks i
  rw [ht] at hrel
  exact exists_of_rel hrel

theorem nextTask_eq (A : w.Alike x v) : past x.task v.nextTask = w.nextTask := A.next 0

theorem advance (A : w.Alike x v) (ht : t.Alike x u) (hc : c.Alike (x.call t.kind) d)
    (hi : i ≤ v.nextTask) :
    (w.advance (past x.task i) t c hub made).Alike x (v.advance i u d hub made') where
  hub := rfl
  index := A.index
  router := A.router
  collectors := by
    intro kind
    rw [get?_collectors_advance, get?_collectors_advance, ht.kind]
    split
    · next hk => exact .some (hk ▸ hc)
    · exact A.collectors kind
  tasks := by
    intro j
    rw [get?_tasks_advance, get?_tasks_advance]
    simp only [(increasing_past x.task).eq_iff]
    split
    · exact .some ht
    · exact A.tasks j
  next := by
    intro n
    have hnext := A.next
    have hzero := A.nextTask_eq
    show past x.task (max v.nextTask (i + 1) + n) = max w.nextTask (past x.task i + 1) + n
    -- Either the task is there already, or it is the next to begin in both.
    rcases Nat.lt_or_eq_of_le hi with hlt | rfl
    · have hlt' := increasing_past x.task hlt
      rw [hzero] at hlt'
      rw [Nat.max_eq_left hlt, Nat.max_eq_left hlt', hnext]
    · have hlater := hnext (1 + n)
      rw [← Nat.add_assoc, ← Nat.add_assoc] at hlater
      rw [hzero, Nat.max_eq_right (Nat.le_succ _), Nat.max_eq_right (Nat.le_succ _)]
      exact hlater

/-! ## Steps of others -/

theorem beginCycle (A : w.Alike x v) (hc : w.collectors.get? kind = some c) (key : Key) :
    ∃ v', v.step (.reconcile kind key) = some v' ∧ (w.beginCycle kind key c).Alike x v' := by
  obtain ⟨d, hd, hsame, hlocks⟩ := A.collector hc
  refine ⟨_, by rw [World.step, hd, Option.map_some], ?_⟩
  unfold World.beginCycle
  rw [← A.nextTask_eq, A.hub]
  refine A.advance ⟨rfl, ?_⟩ ⟨?_, hlocks.request (x.increasing_call kind) key⟩ (Nat.le_refl _)
  · exact congrArg (fun n => Activity.cycle { key, ticket := n }) (hlocks.ticket_eq key)
  · exact congrArg (fun e : Collector => { e with locks := (d.locks.request key).2 }) hsame

theorem beginReplay (A : w.Alike x v) (hc : w.collectors.get? kind = some c) {node : String}
    (hj : w.hub.nextJoin c.listener = some (node, hub)) :
    ∃ v', v.step (.join kind) = some v' ∧ (w.beginReplay kind node c hub).Alike x v' := by
  obtain ⟨d, hd, hsame, hlocks⟩ := A.collector hc
  have hj' : v.hub.nextJoin d.listener = some (node, hub) := by rw [hsame, A.hub, hj]
  refine ⟨v.beginReplay kind node d hub, by simp [World.step, hd, hj'], ?_⟩
  unfold World.beginReplay Collector.beginReplay
  rw [← A.nextTask_eq, A.hub]
  refine A.advance ⟨rfl, ?_⟩ ⟨hsame, hlocks⟩ (Nat.le_refl _)
  show Activity.replay _ = Activity.replay _
  rw [hsame]
  rfl

theorem moveCycle (A : w.Alike x v) (hw : Reachable w) (hv : Reachable v) {m : Cycle.Move}
    (commit : Nat) (made : List Commit) (ht : w.tasks.get? (past x.task i) = some t)
    (hc : w.collectors.get? t.kind = some c) (ha : t.activity = .cycle y)
    (hm : c.moveCycle w.hub y m = some (y', c', hub)) :
    ∃ v', v.step (.cycle i m) = some v' ∧
      (w.advance (past x.task i) { t with activity := .cycle y', commit } c' hub made).Alike x
        v' := by
  obtain ⟨u, hu, ⟨hkind, hactivity⟩⟩ := A.task ht
  obtain ⟨d, hd, hsame, hlocks⟩ := A.collector hc
  rw [ha] at hactivity
  obtain ⟨z, hz, rfl⟩ := Activity.eq_rename_cycle hactivity
  obtain ⟨z', l', rfl, hstep, hlocks'⟩ := (Collector.moveCycle_step hm).alike
    (x.increasing_call t.kind) (hw.orderly hc) (hv.orderly hd) hlocks
  rw [← hsame, ← A.hub] at hstep
  rw [← hkind] at hd
  obtain ⟨commit', made', hs⟩ := exists_step_cycle hu hd hz hstep.move
  exact ⟨_, hs, A.advance ⟨hkind, rfl⟩ ⟨rfl, hlocks'⟩ (Nat.le_of_lt (hv.sound.begun hu).1)⟩

theorem moveReplay (A : w.Alike x v) (hw : Reachable w) (hv : Reachable v) {m : Replay.Move}
    (commit : Nat) (cancelled : Bool) (ht : w.tasks.get? (past x.task i) = some t)
    (hc : w.collectors.get? t.kind = some c) (ha : t.activity = .replay r)
    (hm : c.moveReplay w.hub r m = some (r', c', hub)) :
    ∃ v', v.step (.replay i m) = some v' ∧
      (w.advance (past x.task i) { t with activity := .replay r', commit, cancelled } c' hub
        []).Alike x v' := by
  obtain ⟨u, hu, ⟨hkind, hactivity⟩⟩ := A.task ht
  obtain ⟨d, hd, hsame, hlocks⟩ := A.collector hc
  rw [ha] at hactivity
  obtain ⟨s, hs, rfl⟩ := Activity.eq_rename_replay hactivity
  obtain ⟨s', l', rfl, hstep, hlocks'⟩ := Collector.moveReplay_alike
    (x.increasing_call t.kind) (hw.orderly hc) (hv.orderly hd) hlocks hm
  rw [← hsame, ← A.hub] at hstep
  rw [← hkind] at hd
  obtain ⟨commit', cancelled', hs'⟩ := exists_step_replay hu hd hs hstep
  exact ⟨_, hs', A.advance ⟨hkind, rfl⟩ ⟨rfl, hlocks'⟩ (Nat.le_of_lt (hv.sound.begun hu).1)⟩

theorem step (A : w.Alike x v) (hw : Reachable w) (hv : Reachable v) (h : w.step a = some w')
    {b : Action} (hb : x.act? a = some b) : ∃ v', v.step b = some v' ∧ w'.Alike x v' := by
  cases step_of_step h with
  | reconcile key hc =>
    cases hb
    exact A.beginCycle hc key
  | join hc hj =>
    cases hb
    exact A.beginReplay hc hj
  | cycle commit made ht hc ha hm =>
    obtain ⟨hi, hb⟩ := Option.ite_none_left_eq_some.1 hb
    cases hb
    have hj := past_fore hi
    generalize fore x.task _ = j at hj ⊢
    subst hj
    exact A.moveCycle hw hv commit made ht hc ha hm
  | replay commit cancelled ht hc ha hm =>
    obtain ⟨hi, hb⟩ := Option.ite_none_left_eq_some.1 hb
    cases hb
    have hj := past_fore hi
    generalize fore x.task _ = j at hj ⊢
    subst hj
    exact A.moveReplay hw hv commit cancelled ht hc ha hm
  | wish wish =>
    cases hb
    exact ⟨_, rfl, { A with hub := congrArg (grant · wish) A.hub }⟩

end Alike

/-! ## Steps of the cycle -/

/-- The cycle that is left out is a task. -/
def Has (w : World) (x : Omission) : Prop :=
  ∃ t y, w.tasks.get? x.task = some t ∧ t.kind = x.kind ∧ t.activity = .cycle y ∧
    y.ticket = x.ticket

theorem Has.ticket_eq (hx : w.Has x) (ht : w.tasks.get? x.task = some t)
    (ha : t.activity = .cycle y) : y.ticket = x.ticket := by
  obtain ⟨t', y', ht', -, ha', hticket⟩ := hx
  rw [← (cycle_unique ht ha ht' ha').2, hticket]

theorem Alike.own {m : Cycle.Move} (A : w.Alike x v) (S : w.Sound) (hx : w.Has x)
    (h : w.step (.cycle x.task m) = some w') (hd : Does w x.kind key [] w') :
    w'.Alike x v ∧ w'.Has x := by
  obtain ⟨t, y, ht, hkind, ha, hticket⟩ := hx
  obtain ⟨c, hc, -⟩ := S.tasks ht
  obtain ⟨c', y', hub, commit, made, hstep, rfl⟩ := cycleStep_of_step h ht ha hc
  obtain ⟨d, hdv, hsame, hlocks⟩ := A.collector hc
  have hcall : x.call t.kind = past y.ticket := by rw [Omission.call, if_pos hkind, hticket]
  rw [hcall] at hlocks
  have hlocks' := hstep.alike_past hlocks
  obtain ⟨hticket', hc', -⟩ := hstep.same
  obtain ⟨c'', hget, hcache, hcounts⟩ := hd.mine (hkind ▸ hc)
  rw [get?_collectors_advance, if_pos hkind.symm] at hget
  cases hget
  -- The cycle has done nothing, so that only its task and its call are other than before.
  refine ⟨⟨A.hub.trans hd.hub.symm, A.index, A.router, ?_, ?_, ?_⟩, ?_⟩
  · intro k
    rw [get?_collectors_advance]
    split
    · next hk =>
      rw [hk, hdv, hcall]
      refine .some ⟨?_, hlocks'⟩
      rw [hsame, hc', hcache, hcounts]
      rfl
    · exact A.collectors k
  · intro i
    rw [get?_tasks_advance, if_neg (past_ne x.task i)]
    exact A.tasks i
  · intro n
    show _ = max w.nextTask (x.task + 1) + n
    rw [Nat.max_eq_left (S.begun ht).1]
    exact A.next n
  · refine ⟨{ t with activity := .cycle y', commit }, y', ?_, hkind, rfl, hticket'.trans hticket⟩
    rw [get?_tasks_advance, if_pos rfl]

/-! ## The beginning of the cycle -/

theorem Reachable.ticket_lt (hw : Reachable w) (ht : w.tasks.get? i = some t)
    (ha : t.activity = .cycle y) (hc : w.collectors.get? t.kind = some c) :
    y.ticket < c.locks.nextTicket := by
  have S := hw.sound
  cases hticket : y.ticket? with
  | none => exact (hw.freed ht ha hticket hc).1
  | some n =>
    obtain rfl : n = y.ticket := by
      unfold Cycle.ticket? at hticket
      split at hticket
      · contradiction
      · exact (Option.some.inj hticket).symm
    exact ((S.of_cycle ht ha hc).asks hticket).lt (S.locks hc)

theorem Reachable.rename_past (hw : Reachable w) (ht : w.tasks.get? i = some t)
    (hc : w.collectors.get? t.kind = some c) :
    t.activity.rename (past c.locks.nextTicket) = t.activity := by
  cases ha : t.activity with
  | cycle y => exact congrArg Activity.cycle (Cycle.rename_past (hw.ticket_lt ht ha hc))
  | replay r =>
    refine congrArg Activity.replay (Replay.rename_past fun n hn => ?_)
    obtain ⟨k, hasks⟩ := (hw.sound.of_replay ht ha hc).asks hn
    exact hasks.lt (hw.sound.locks hc)

theorem Reachable.alike_task (hw : Reachable w) (hc : w.collectors.get? kind = some c) (key : Key)
    (i : Nat) : Option.Rel (Task.Alike ⟨w.nextTask, kind, c.locks.nextTicket⟩)
      ((w.beginCycle kind key c).tasks.get? (past w.nextTask i)) (w.tasks.get? i) := by
  have S := hw.sound
  rw [beginCycle, get?_tasks_advance, if_neg (past_ne _ i)]
  rcases Nat.lt_or_ge i w.nextTask with hi | hi
  · rw [past_of_lt hi]
    cases ht : w.tasks.get? i with
    | none => exact .none
    | some t =>
      refine .some ⟨rfl, ?_⟩
      unfold Omission.call
      split
      · next hk => exact (hw.rename_past ht (hk ▸ hc)).symm
      · exact t.activity.rename_id.symm
  · rw [past_of_le hi, S.get?_of_le hi, S.get?_of_le (Nat.le_succ_of_le hi)]
    exact .none

theorem Reachable.alike_collector (hw : Reachable w) (hc : w.collectors.get? kind = some c)
    (key : Key) (k : Kind) :
    Option.Rel (Collector.Alike (Omission.call ⟨w.nextTask, kind, c.locks.nextTicket⟩ k))
      ((w.beginCycle kind key c).collectors.get? k) (w.collectors.get? k) := by
  rw [beginCycle, get?_collectors_advance]
  dsimp only
  split
  · next hk =>
    rw [hk, hc, Omission.call, if_pos rfl]
    exact .some ⟨rfl, (hw.sound.locks hc).alike_request key⟩
  · next hk =>
    rw [Omission.call, if_neg hk]
    cases hd : w.collectors.get? k with
    | none => exact .none
    | some d => exact .some ⟨rfl, .refl _⟩

theorem Reachable.alike (hw : Reachable w) (hc : w.collectors.get? kind = some c) (key : Key) :
    (w.beginCycle kind key c).Alike ⟨w.nextTask, kind, c.locks.nextTicket⟩ w where
  hub := rfl
  index := rfl
  router := rfl
  collectors := hw.alike_collector hc key
  tasks := hw.alike_task hc key
  next := by
    intro n
    show past w.nextTask (w.nextTask + n) = max w.nextTask (w.nextTask + 1) + n
    rw [past_of_le (Nat.le_add_right _ _), Nat.max_eq_right (Nat.le_succ _)]
    omega

theorem has_beginCycle (w : World) (kind : Kind) (key : Key) (c : Collector) :
    (w.beginCycle kind key c).Has ⟨w.nextTask, kind, c.locks.nextTicket⟩ := by
  refine ⟨{ kind, activity := .cycle (c.beginCycle key).1, since := w.hub.nextGeneration }, _, ?_,
    rfl, rfl, KeyedLock.request_ticket c.locks key⟩
  rw [beginCycle, get?_tasks_advance, if_pos rfl]

/-! ## Whole runs -/

theorem Has.stays (hx : w.Has x) (S : w.Sound) (h : w.step a = some w')
    (hno : ∀ m, a ≠ .cycle x.task m) : w'.Has x := by
  obtain ⟨t, y, ht, hkind, ha, hticket⟩ := hx
  obtain ⟨c, hc, -⟩ := S.tasks ht
  exact ⟨t, y, ((step_of_step h).stays S ht ha hc hno).1, hkind, ha, hticket⟩

theorem Has.exists_act? (hx : w.Has x) (h : w.step a = some w')
    (hno : ∀ m, a ≠ .cycle x.task m) : ∃ b, x.act? a = some b := by
  cases step_of_step h with
  | @cycle i t _ _ _ _ m =>
    refine ⟨_, if_neg ?_⟩
    rintro rfl
    exact hno m rfl
  | replay commit cancelled ht hc ha hm =>
    refine ⟨_, if_neg ?_⟩
    rintro rfl
    obtain ⟨t, y, ht', -, hy, -⟩ := hx
    exact ne_replay_of_cycle ht' hy ht ha
  | reconcile | join | wish => exact ⟨_, rfl⟩

theorem run_concat {as : List Action} {w1 : World} (h : w.run as = some w1)
    (hs : w1.step a = some w') : w.run (as ++ [a]) = some w' := by
  rw [World.run] at h ⊢
  rw [List.foldlM_append, h]
  simp [hs]

/-- A run in which a cycle does nothing goes the same way without the cycle. -/
theorem Alike.run (A : w.Alike x v) (hw : Reachable w) (hv : Reachable v) (hx : w.Has x)
    {as : List Action} {ds : List Deed} (h : Did w x.task x.kind key as ds w') (hds : ds = []) :
    ∃ v', v.run (x.run as) = some v' ∧ w'.Alike x v' ∧ Reachable w' ∧ w'.Has x := by
  induction h with
  | start => exact ⟨v, rfl, A, hw, hx⟩
  | @other w1 w2 as ds a hdid hno hs ih =>
    obtain ⟨v1, hr, A1, hw1, hx1⟩ := ih hds
    obtain ⟨b, hb⟩ := hx1.exists_act? hs hno
    obtain ⟨v2, hs', A2⟩ := A1.step hw1 (hv.run hr) hs hb
    refine ⟨v2, ?_, A2, hw1.step a hs, hx1.stays hw1.sound hs hno⟩
    rw [x.run_append, x.run_single hb]
    exact run_concat hr hs'
  | @own w1 w2 as ds made m hdid hs hdoes ih =>
    obtain ⟨rfl, rfl⟩ := List.append_eq_nil_iff.1 hds
    obtain ⟨v1, hr, A1, hw1, hx1⟩ := ih rfl
    obtain ⟨A2, hx2⟩ := A1.own hw1.sound hx1 hs hdoes
    refine ⟨v1, ?_, A2, hw1.step _ hs, hx2⟩
    rw [x.run_append, x.run_own, List.append_nil, hr]

end World

end Nodecast
