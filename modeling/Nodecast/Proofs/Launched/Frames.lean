import Nodecast.Proofs.Tasks
import Nodecast.Simulation.Jobs

/-!
# What the tasks of a site leave alone

Tasks change caches, locks, streams and queues. How the hub is configured, how runs ended and which
workers a queue has is not theirs to change.
-/

namespace Nodecast

/-! ## The hub -/

namespace Hub

variable {α : Type} {h h' : Hub α} {node : String} {item : α}

@[simp] theorem config_disconnect (h : Hub α) (node : String) (g : Nat) :
    (h.disconnect node g).config = h.config := by
  unfold disconnect
  split <;> rfl

theorem config_offer (h : Hub α) (node : String) (g : Nat) (item : α) :
    (h.offer node g item).2.config = h.config := by
  unfold offer
  split
  · exact config_disconnect _ _ _
  · split
    · rfl
    · exact config_disconnect _ _ _

theorem config_resume {r : PacedRef} {outcome : Outcome} (hr : h.resume? r = some (outcome, h')) :
    h'.config = h.config := by
  obtain ⟨s, -, hr⟩ := Option.bind_eq_some_iff.1 hr
  split at hr
  · obtain ⟨p, -, hp⟩ := Option.map_eq_some_iff.1 hr
    cases hp
    rfl
  · cases hr
    exact config_disconnect _ _ _

theorem config_expire (h : Hub α) (r : PacedRef) : (h.expire r).2.config = h.config := by
  unfold expire
  split
  · rfl
  · exact config_disconnect _ _ _

theorem config_abandon (h : Hub α) (r : PacedRef) : (h.abandon r).config = h.config := by
  unfold abandon
  split <;> rfl

theorem config_nextJoin {listener : Nat} (hj : h.nextJoin listener = some (node, h')) :
    h'.config = h.config := by
  unfold nextJoin at hj
  split at hj
  · contradiction
  · cases hj
    rfl

end Hub

/-! ## Cycles and replays -/

variable {c c' : Collector} {hub hub' : Hub Event}

theorem Collector.CycleStep.config_eq {y y' : Cycle} {m : Cycle.Move}
    (h : c.CycleStep hub y m y' c' hub') : hub'.config = hub.config := by
  cases h with
  | offer events g e rest => exact Hub.config_offer hub e.node g e
  | _ => rfl

theorem Collector.ReplayStep.config_eq {r r' : Replay} {m : Replay.Move}
    {sent : Option (Nat × Event)} (h : c.ReplayStep hub r m r' c' hub' sent) :
    hub'.config = hub.config := by
  cases h with
  | sent key ticket push e hub' _ hr | lost key ticket push failure hub' _ hr =>
    exact Hub.config_resume hr
  | expire key ticket push => exact Hub.config_expire hub push
  | cancel key ticket push => exact Hub.config_abandon hub push
  | _ => rfl

/-! ## Reactions -/

/-- The runs of a queue with all that is said of them. -/
def Router.runsOf (r : Router) (kind : Kind) : Option (Table Nat WorkQueue.Run) :=
  (r.queues.get? kind).map WorkQueue.runs

theorem WorkQueue.runs_add (q : WorkQueue) (key : Key) : (q.add key).runs = q.runs := by
  unfold add mark
  cases q.contains key <;> rfl

theorem Router.runsOf_trigger (r : Router) (kind : Kind) (key : Key) :
    (r.trigger kind key).runsOf = r.runsOf := by
  funext k
  unfold runsOf trigger
  rw [Table.get?_modify]
  split
  · next hk =>
    subst hk
    cases r.queues.get? k with
    | none => rfl
    | some q => exact congrArg some (WorkQueue.runs_add q key)
  · rfl

theorem Reaction.step_keeps (d : Daemon) (r : Reaction) :
    (r.step d).1.hub = d.hub ∧ (r.step d).1.router.runsOf = d.router.runsOf := by
  cases r with
  | trigger kind key => exact ⟨rfl, Router.runsOf_trigger d.router kind key⟩
  | _ => exact ⟨rfl, rfl⟩

theorem Reaction.performWithin_keeps (n : Nat) (d : Daemon) (rs : List Reaction) :
    (performWithin n d rs).hub = d.hub ∧
      (performWithin n d rs).router.runsOf = d.router.runsOf := by
  induction n generalizing d rs with
  | zero => exact ⟨rfl, rfl⟩
  | succ n ihn =>
    induction rs generalizing d with
    | nil => exact ⟨rfl, rfl⟩
    | cons r rest ihrs =>
      obtain ⟨hhub, hruns⟩ := step_keeps d r
      obtain ⟨hhub', hruns'⟩ := ihn (r.step d).1 (r.step d).2
      obtain ⟨hhub'', hruns''⟩ := ihrs (performWithin n (r.step d).1 (r.step d).2)
      exact ⟨hhub''.trans (hhub'.trans hhub), hruns''.trans (hruns'.trans hruns)⟩

/-! ## Sites -/

namespace Simulation

variable {s s' s'' : Site}

structure Site.Keeps (s s' : Site) : Prop where
  config : s'.daemon.hub.config = s.daemon.hub.config
  endings : s'.runs = s.runs
  runs : s'.daemon.router.runsOf = s.daemon.router.runsOf

namespace Site.Keeps

theorem refl (s : Site) : s.Keeps s := ⟨rfl, rfl, rfl⟩

theorem trans (h : s.Keeps s') (h' : s'.Keeps s'') : s.Keeps s'' :=
  ⟨h'.config.trans h.config, h'.endings.trans h.endings, h'.runs.trans h.runs⟩

theorem moved (s : Site) (c : Collector) {hub : Hub Event}
    (hconfig : hub.config = s.daemon.hub.config) : s.Keeps ((s.setCollector c).setHub hub) :=
  ⟨hconfig, rfl, rfl⟩

theorem cycle (m : Moment) (s : Site) (t : CycleTask) : s.Keeps (t.step m s).1 := by
  have hnext : ∀ y, s.Keeps (t.next s y).2 := by
    intro y
    unfold CycleTask.next
    cases y.stage with
    | fetching => cases s.isCancelled t.token <;> exact ⟨rfl, rfl, rfl⟩
    | resolving object prior => cases s.isCancelled t.token <;> exact ⟨rfl, rfl, rfl⟩
    | pushing events rest => cases rest <;> exact refl s
    | _ => exact refl s
  have hadvance : ∀ c y, s.Keeps (t.advance s c y).2 := by
    intro c y
    have hn := hnext y
    unfold CycleTask.advance
    dsimp only
    split
    · next y' c' hub' hm =>
      exact hn.trans (moved _ c' (Collector.moveCycle_step hm).config_eq)
    · exact hn
  have hwait : ∀ (s : Site) y, s.Keeps (t.beginWait m s y).2 := by
    intro s y
    unfold CycleTask.beginWait
    split
    · exact ⟨rfl, rfl, rfl⟩
    · exact ⟨rfl, rfl, rfl⟩
    · exact refl s
  unfold CycleTask.step
  split
  · exact refl s
  · exact ⟨rfl, rfl, rfl⟩
  · exact (hadvance _ _).trans (hwait _ _)

theorem replay (m : Moment) (s : Site) (t : ReplayTask) : s.Keeps (t.step m s).1 := by
  have hadvance : ∀ c r, s.Keeps (t.advance m.now s c r).2 := by
    intro c r
    unfold ReplayTask.advance
    split
    · next r' c' hub' hm =>
      obtain ⟨sent, hstep⟩ := Collector.moveReplay_step hm
      exact moved s c' hstep.config_eq
    · exact refl s
  unfold ReplayTask.step
  split
  · exact refl s
  · exact refl s
  · exact hadvance _ _

theorem join (m : Moment) (s : Site) (t : JoinTask) : s.Keeps (t.step m s).1 := by
  have hnext : ∀ c loop, s.Keeps (t.next s c loop).1 := by
    intro c loop
    unfold JoinTask.next
    split
    · exact refl s
    · split
      · exact ⟨rfl, rfl, rfl⟩
      · split
        · exact refl s
        · next node hub hj => exact ⟨Hub.config_nextJoin hj, rfl, rfl⟩
  unfold JoinTask.step
  split
  · exact refl s
  · exact ⟨rfl, rfl, rfl⟩
  · exact hnext _ _
  · split
    · exact refl s
    · exact replay m s _

theorem watch (m : Moment) (s : Site) (t : WatchTask) : s.Keeps (t.step m s).1 := by
  have henter : ∀ server next link,
      s.Keeps (t.enter m { s with server } next link).1 := by
    intro server next link
    unfold WatchTask.enter
    cases next.2 with
    | none => exact ⟨rfl, rfl, rfl⟩
    | some n =>
      obtain ⟨hhub, hruns⟩ :=
        Reaction.performWithin_keeps Reaction.depth s.daemon (n.reactions t.kind)
      exact ⟨congrArg Hub.config hhub, rfl, hruns⟩
  have hread : ∀ i, s.Keeps (t.read m s i).1 := by
    intro i
    unfold WatchTask.read
    split
    · exact refl s
    · exact henter _ _ _
    · split <;> exact henter _ _ _
  have hask : s.Keeps (t.ask m s).1 := by
    unfold WatchTask.ask
    split
    · exact ⟨rfl, rfl, rfl⟩
    · exact ⟨rfl, rfl, rfl⟩
    · exact refl s
    · exact refl s
  unfold WatchTask.step
  split
  · exact refl s
  · split
    · next p objects _ _ => exact henter s.server (Watch.listed objects p) .idle
    · exact hread _
    · exact hask

end Site.Keeps

end Simulation

end Nodecast
