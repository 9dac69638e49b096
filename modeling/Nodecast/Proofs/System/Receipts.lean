import Nodecast.Proofs.Hub.Tally
import Nodecast.Proofs.System.Generated
import Nodecast.Proofs.System.Moves

/-!
# Receipts

Every push that returns leaves a receipt, which says what came of it. A step of a task ends one push
at most. What the hub and the collector count then is told apart from what is still to come, and
both together are what the cycles generated.
-/

namespace Nodecast

variable {c c' : Collector} {hub hub' : Hub Event} {y y' : Cycle} {r r' : Replay} {i : Nat}
  {kind : Kind} {change : Change}

/-! ## Pushes that return -/

/-- The event whose push returns in the move, and what it returns. -/
def Cycle.returns? (y : Cycle) (hub : Hub Event) (m : Cycle.Move) : Option (Event × Hub.Outcome) :=
  match y.stage, m with
  | .pushing _ (e :: _), .push =>
    if (hub.connection? e.node).isNone then some (e, .error (hub.refuse e.node).1) else none
  | .offering _ g e _, .offer => some (e, (hub.offer e.node g e).1)
  | _, _ => none

/-- A paced push returns at once if there is no stream. One that is given up returns nothing. -/
def Replay.returns? (r : Replay) (c : Collector) (hub : Hub Event) (m : Replay.Move) :
    Option (Event × Hub.Outcome) :=
  match r.stage, m with
  | .locking key _, .lock =>
    ((c.replayed? r key).filter fun e => (hub.connection? e.node).isNone).map fun e =>
      (e, .error (hub.refuse e.node).1)
  | .pacing _ _ push, .resume =>
    (hub.resume? push).bind fun x => (hub.item? push).map fun e => (e, x.1)
  | .pacing _ _ push, .expire => (hub.item? push).map fun e => (e, (hub.expire push).1)
  | _, _ => none

structure Receipt where
  task : Nat
  event : Event
  outcome : Hub.Outcome

namespace Receipt

variable {x : Option (Event × Hub.Outcome)}

/-- What a task leaves whose push has returned. -/
def of? (task : Nat) (x : Option (Event × Hub.Outcome)) : Option Receipt :=
  x.map fun x => ⟨task, x.1, x.2⟩

@[simp] theorem map_event_of? : (of? i x).map Receipt.event = x.map Prod.fst :=
  Option.map_map _ _ _

@[simp] theorem map_outcome_of? : (of? i x).map Receipt.outcome = x.map Prod.snd :=
  Option.map_map _ _ _

theorem task_of? {r : Receipt} (h : of? i x = some r) : r.task = i := by
  obtain ⟨_, -, rfl⟩ := Option.map_eq_some_iff.1 h
  rfl

end Receipt

namespace World

def receipt? (w : World) : Action → Option Receipt
  | .cycle i m => do
    let t ← w.tasks.get? i
    match t.activity with
    | .cycle y => Receipt.of? i (y.returns? w.hub m)
    | .replay _ => none
  | .replay i m => do
    let t ← w.tasks.get? i
    let c ← w.collectors.get? t.kind
    match t.activity with
    | .cycle _ => none
    | .replay r => Receipt.of? i (r.returns? c w.hub m)
  | _ => none

/-- A run and the receipts of the pushes that returned in it, the oldest first. -/
inductive Receipted : World → List Receipt → Prop where
  | start (s : Settings) : Receipted (start s) []
  | step {w w' : World} {rs : List Receipt} (a : Action) : Receipted w rs → w.step a = some w' →
      Receipted w' (rs ++ (w.receipt? a).toList)

def receipts (w : World) : List Action → List Receipt
  | [] => []
  | a :: as => (w.receipt? a).toList ++ ((w.step a).map fun w' => w'.receipts as).getD []

theorem Receipted.run {w w' : World} {rs : List Receipt} (h : Receipted w rs) {as : List Action}
    (hr : w.run as = some w') : Receipted w' (rs ++ w.receipts as) := by
  induction as generalizing w rs with
  | nil =>
    cases hr
    simpa [receipts] using h
  | cons a rest ih =>
    obtain ⟨w1, h1, hr⟩ := Option.bind_eq_some_iff.1 hr
    have hrest := ih (.step a h h1) hr
    simpa [receipts, h1, List.append_assoc] using hrest

theorem Receipted.reachable {w : World} {rs : List Receipt} (h : Receipted w rs) :
    Reachable w := by
  induction h with
  | start s => exact .start s
  | step a _ hs ih => exact .step a ih hs

end World

/-! ## Counting events -/

def Counts.of (counts : Counts) : Change → Nat
  | .added => counts.added
  | .modified => counts.modified
  | .deleted => counts.deleted

/-- How many of the events are of this sort. -/
def ofChange (change : Change) (events : List Event) : Nat := events.countP (·.change = change)

theorem ofChange_append (change : Change) (es fs : List Event) :
    ofChange change (es ++ fs) = ofChange change es + ofChange change fs := List.countP_append

theorem Counts.of_record (counts : Counts) (e : Event) (change : Change) :
    (counts.record e.change).of change = counts.of change + ofChange change [e] := by
  cases he : e.change <;> cases change <;> simp [Counts.record, Counts.of, ofChange, he]

/-! ## Events of a cycle -/

namespace Cycle

/-- The events that are committed and not counted yet. -/
def uncounted (y : Cycle) : List Event :=
  match y.stage with
  | .pushing _ rest | .offering _ _ _ rest => rest
  | _ => []

/-- The events that the cycle returned. -/
def returned (y : Cycle) : List Event :=
  match y.stage with
  | .ended (.ok events) => events
  | _ => []

/-- Whether the cycle has committed and not returned yet. -/
def isPushing (y : Cycle) : Bool :=
  match y.stage with
  | .pushing .. | .offering .. => true
  | _ => false

theorem generated_eq_returned (h : y.isPushing = false) : y.generated = y.returned := by
  unfold isPushing at h
  unfold generated returned
  rcases hs : y.stage with _ | _ | _ | _ | _ | _ | ⟨_ | _⟩ <;> simp [hs] at h ⊢

theorem uncounted_eq_nil (h : y.isPushing = false) : y.uncounted = [] := by
  unfold isPushing at h
  unfold uncounted
  cases hs : y.stage <;> simp [hs] at h ⊢

/-- What a step of a cycle does with events: some are generated, some are counted, and the pushes of
some return. -/
structure Shifts (y y' : Cycle) (c c' : Collector) (made noted settled : List Event) : Prop where
  generated : y'.generated = y.generated ++ made
  uncounted : y.uncounted ++ made = noted ++ y'.uncounted
  owes : y.owes ++ made = settled ++ y'.owes
  counts : ∀ change, c'.counts.of change = c.counts.of change + ofChange change noted

theorem shifts_of_early (hg : y.generated = []) (hu : y.uncounted = []) (ho : y.owes = [])
    (hg' : y'.generated = []) (hu' : y'.uncounted = []) (ho' : y'.owes = [])
    (hc : c'.counts = c.counts) : y.Shifts y' c c' [] [] [] where
  generated := by rw [hg, hg', List.append_nil]
  uncounted := by rw [hu, hu', List.append_nil]
  owes := by rw [ho, ho', List.append_nil]
  counts := fun change => by rw [hc]; rfl

end Cycle

theorem Collector.CycleStep.shifts {m : Cycle.Move} (h : c.CycleStep hub y m y' c' hub') :
    ∃ made noted, y.Shifts y' c c' made noted ((y.returns? hub m).map Prod.fst).toList := by
  have early : ∀ {y₁ c₁}, y.generated = [] → y.uncounted = [] → y.owes = [] →
      y₁.generated = [] → y₁.uncounted = [] → y₁.owes = [] → c₁.counts = c.counts →
      ∃ made noted, y.Shifts y₁ c c₁ made noted [] :=
    fun hg hu ho hg' hu' ho' hc => ⟨[], [], Cycle.shifts_of_early hg hu ho hg' hu' ho' hc⟩
  cases h with
  | lock cancelled hs =>
    simp only [Cycle.returns?, hs]
    cases cancelled <;> exact early (by simp [Cycle.generated, hs]) (by simp [Cycle.uncounted, hs])
      (by simp [Cycle.owes, hs]) rfl rfl rfl rfl
  | fetch answer hs =>
    simp only [Cycle.returns?, hs]
    unfold Collector.fetched
    split <;> exact early (by simp [Cycle.generated, hs]) (by simp [Cycle.uncounted, hs])
      (by simp [Cycle.owes, hs]) rfl rfl rfl rfl
  | resolve object prior answer hs =>
    simp only [Cycle.returns?, hs]
    cases answer <;> exact early (by simp [Cycle.generated, hs]) (by simp [Cycle.uncounted, hs])
      (by simp [Cycle.owes, hs]) rfl rfl rfl rfl
  | cancel hs =>
    rcases hs with hs | ⟨object, prior, hs⟩ <;> simp only [Cycle.returns?, hs] <;>
      exact early (by simp [Cycle.generated, hs]) (by simp [Cycle.uncounted, hs])
        (by simp [Cycle.owes, hs]) rfl rfl rfl rfl
  | commit hadPrior t cancelled hs =>
    simp only [Cycle.returns?, hs]
    cases cancelled with
    | true =>
      exact early (by simp [Cycle.generated, hs]) (by simp [Cycle.uncounted, hs])
        (by simp [Cycle.owes, hs]) rfl rfl rfl rfl
    | false =>
      refine ⟨t.events y.key, [], ?_, ?_, ?_, fun _ => rfl⟩
      · simp [Collector.commit, Cache.commit, Cycle.generated, hs]
      · simp [Collector.commit, Cache.commit, Cycle.uncounted, hs]
      · simp [Collector.commit, Cache.commit, Cycle.owes, hs]
  | miss events e rest hs hnone =>
    refine ⟨[], [e], ?_, ?_, ?_, c.counts.of_record e⟩
    · simp [Cycle.generated, hs]
    · simp [Cycle.uncounted, hs]
    · simp [Cycle.owes, Cycle.returns?, hs, hnone]
  | find events e rest g s hs hc =>
    refine ⟨[], [e], ?_, ?_, ?_, c.counts.of_record e⟩
    · simp [Cycle.generated, hs]
    · simp [Cycle.uncounted, hs]
    · simp [Cycle.owes, Cycle.returns?, hs, hc]
  | offer events g e rest hs =>
    refine ⟨[], [], ?_, ?_, ?_, fun _ => rfl⟩
    · simp [Cycle.generated, hs]
    · simp [Cycle.uncounted, hs]
    · simp [Cycle.owes, Cycle.returns?, hs]
  | finish events hs =>
    refine ⟨[], [], ?_, ?_, ?_, fun _ => rfl⟩
    · simp [Collector.endCycle, Cycle.generated, hs]
    · simp [Collector.endCycle, Cycle.uncounted, hs]
    · simp [Collector.endCycle, Cycle.owes, Cycle.returns?, hs]

/-! ## What the hub counts in a step -/

theorem Collector.CycleStep.counted {m : Cycle.Move} (h : c.CycleStep hub y m y' c' hub') :
    Hub.Counted hub hub' ((y.returns? hub m).map Prod.snd) := by
  cases h with
  | lock _ hs | fetch _ hs | resolve _ _ _ hs | commit _ _ _ hs | finish _ hs =>
    simp only [Cycle.returns?, hs]
    exact .nothing rfl
  | cancel hs =>
    rcases hs with hs | ⟨object, prior, hs⟩ <;> simp only [Cycle.returns?, hs] <;>
      exact .nothing rfl
  | miss events e rest hs hnone =>
    simp only [Cycle.returns?, hs, hnone]
    exact Hub.counted_refuse hub e.node
  | find events e rest g s hs hc =>
    simp only [Cycle.returns?, hs, hc]
    exact .nothing rfl
  | offer events g e rest hs =>
    simp only [Cycle.returns?, hs]
    exact Hub.counted_offer hub e.node g e

theorem Collector.ReplayStep.counted {m : Replay.Move} {sent : Option (Nat × Event)}
    {count : Key → Nat} {commit : Nat} (h : c.ReplayStep hub r m r' c' hub' sent)
    (hr : r.Sound c hub count commit) :
    Hub.Counted hub hub' ((r.returns? c hub m).map Prod.snd) := by
  cases h with
  | list _ _ _ hs | pass _ _ hs | stopped _ _ _ hs =>
    simp only [Replay.returns?, hs]
    exact .nothing rfl
  | next key rest hs | stop cancelled hs =>
    rcases hs with hs | hs <;> simp only [Replay.returns?, hs] <;> exact .nothing rfl
  | skip key ticket hs hgranted hnone =>
    simp only [Replay.returns?, hs, hnone]
    exact .nothing rfl
  | reach key ticket e g s hs hgranted he hc =>
    simp only [Replay.returns?, hs, he, hc, Option.filter_some]
    exact .nothing rfl
  | unheard key ticket e hs hgranted he hnone =>
    simp only [Replay.returns?, hs, he, hnone, Option.filter_some]
    exact Hub.counted_refuse hub e.node
  | reserve key ticket g e hs =>
    simp only [Replay.Sound, hs] at hr
    obtain ⟨-, -, hnode, -⟩ := hr
    obtain ⟨s, hstream, -⟩ := Hub.nodeOf_eq_some.1 hnode
    simp only [Replay.returns?, hs]
    exact Hub.counted_reserve hstream e
  | sent key ticket push e _ hs hresume hi =>
    simp only [Replay.returns?, hs, hresume, hi]
    exact Hub.counted_resume hresume
  | lost key ticket push failure _ hs hresume =>
    simp only [Replay.Sound, hs] at hr
    obtain ⟨-, -, -, entry, -, -, hi⟩ := hr
    simp only [Replay.returns?, hs, hresume, hi]
    exact Hub.counted_resume hresume
  | expire key ticket push hs =>
    simp only [Replay.Sound, hs] at hr
    obtain ⟨-, -, -, entry, -, -, hi⟩ := hr
    obtain ⟨s, hstream, -⟩ := Hub.item?_eq_some hi
    simp only [Replay.returns?, hs, hi]
    exact Hub.counted_expire hstream
  | cancel key ticket push hs =>
    simp only [Replay.returns?, hs]
    exact Hub.counted_abandon hub push

theorem World.counted_grant {hub : Hub Event} (v : hub.Valid) (wish : World.Wish) :
    Hub.Counted hub (World.grant hub wish) none := by
  cases wish with
  | register node => exact v.counted_register node
  | announce node => exact .nothing rfl
  | unregister node => exact .nothing rfl
  | leave generation => exact Hub.counted_drop hub generation
  | receive generation => exact Hub.counted_receive hub generation

theorem World.counted_nextJoin {hub hub' : Hub Event} {listener : Nat} {node : String}
    (h : hub.nextJoin listener = some (node, hub')) : Hub.Counted hub hub' none := by
  unfold Hub.nextJoin at h
  split at h
  · contradiction
  · cases h
    exact .nothing rfl

end Nodecast
