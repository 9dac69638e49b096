import Nodecast.Proofs.System.Receipts

/-!
# Every push is accounted for

The pushes that returned are as many as the streams and the hub have counted, each under what came
of it. A collector has counted the events that its cycles returned, and each of them was pushed
once.
-/

namespace Nodecast

/-- The events of a task that is a cycle. -/
def Task.events (t : Task) (of : Cycle → List Event) : List Event :=
  match t.activity with
  | .cycle y => of y
  | .replay _ => []

theorem Task.events_of_cycle {t : Task} {y : Cycle} (ha : t.activity = .cycle y)
    (of : Cycle → List Event) : t.events of = of y := by
  rw [events, ha]

/-- The events whose pushes by the task have returned, the oldest first. -/
def pushedBy (rs : List Receipt) (i : Nat) : List Event :=
  (rs.filter (·.task = i)).map Receipt.event

theorem pushedBy_append (rs : List Receipt) {settled : Option Receipt} {i : Nat}
    (hs : ∀ r, settled = some r → r.task = i) (k : Nat) : pushedBy (rs ++ settled.toList) k =
      pushedBy rs k ++ if i = k then (settled.map Receipt.event).toList else [] := by
  unfold pushedBy
  rw [List.filter_append, List.map_append]
  cases settled with
  | none => simp
  | some r =>
    obtain rfl := hs r rfl
    by_cases hk : r.task = k <;> simp [hk]

namespace World

variable {w w' : World} {rs : List Receipt} {i : Nat} {t t' : Task} {c c' : Collector}
  {y y' : Cycle} {r r' : Replay} {hub : Hub Event} {made noted : List Event}
  {settled : Option Receipt} {commits : List Commit} {a : Action} {kind : Kind} {change : Change}

def weight (kind : Kind) (change : Change) (of : Cycle → List Event) (t : Task) : Nat :=
  if t.kind = kind then ofChange change (t.events of) else 0

/-- How many events of this sort the cycles of a kind have. -/
def amount (w : World) (kind : Kind) (change : Change) (of : Cycle → List Event) : Nat :=
  w.tasks.weigh (weight kind change of)

/-! ## What holds between steps -/

structure Accounted (w : World) (rs : List Receipt) : Prop where
  tally : w.hub.tally = .of (rs.map Receipt.outcome)
  balance : rs.length = w.hub.tally.total
  dated : ∀ r ∈ rs, r.task < w.nextTask
  pushed : ∀ {i t y}, w.tasks.get? i = some t → t.activity = .cycle y →
    pushedBy rs i ++ y.owes = y.generated
  counted : ∀ {kind c}, w.collectors.get? kind = some c → ∀ change,
    c.counts.of change + w.amount kind change Cycle.uncounted =
      w.amount kind change Cycle.generated

/-- Task `i` comes from `t` to `t'`. Some events are generated, some are counted, and one push of it
returns at most. -/
structure Trades (w : World) (i : Nat) (t t' : Task) (c c' : Collector) (made noted : List Event)
    (settled : Option Receipt) : Prop where
  task : w.tasks.get? i = some t
  collector : w.collectors.get? t.kind = some c
  kind : t'.kind = t.kind
  settler : ∀ r, settled = some r → r.task = i
  generated : t'.events Cycle.generated = t.events Cycle.generated ++ made
  uncounted : t.events Cycle.uncounted ++ made = noted ++ t'.events Cycle.uncounted
  owes : ∀ y', t'.activity = .cycle y' → ∃ y, t.activity = .cycle y ∧
    y.owes ++ made = (settled.map Receipt.event).toList ++ y'.owes
  counts : ∀ change, c'.counts.of change = c.counts.of change + ofChange change noted

theorem trades_cycle {m : Cycle.Move} (ht : w.tasks.get? i = some t)
    (hc : w.collectors.get? t.kind = some c) (ha : t.activity = .cycle y)
    (h : c.CycleStep w.hub y m y' c' hub) (commit : Nat) : ∃ made noted,
      w.Trades i t { t with activity := .cycle y', commit } c c' made noted
        (Receipt.of? i (y.returns? w.hub m)) := by
  obtain ⟨made, noted, T⟩ := h.shifts
  refine ⟨made, noted, ht, hc, rfl, fun r => Receipt.task_of?, ?_, ?_, ?_, T.counts⟩
  · rw [Task.events_of_cycle ha]
    exact T.generated
  · rw [Task.events_of_cycle ha]
    exact T.uncounted
  · rintro _ ⟨⟩
    rw [Receipt.map_event_of?]
    exact ⟨y, ha, T.owes⟩

theorem trades_replay {m : Replay.Move} {sent : Option (Nat × Event)}
    (ht : w.tasks.get? i = some t) (hc : w.collectors.get? t.kind = some c)
    (ha : t.activity = .replay r) (h : c.ReplayStep w.hub r m r' c' hub sent) (commit : Nat)
    (cancelled : Bool) :
    w.Trades i t { t with activity := .replay r', commit, cancelled } c c' [] []
      (Receipt.of? i (r.returns? c w.hub m)) := by
  have hnone : ∀ of, t.events of = [] := fun of => by rw [Task.events, ha]
  refine ⟨ht, hc, rfl, fun r => Receipt.task_of?, ?_, ?_, ?_, fun change => ?_⟩
  · rw [hnone]
    rfl
  · rw [hnone]
    rfl
  · rintro _ ⟨⟩
  · rw [h.same.2]
    rfl

namespace Accounted

theorem hub_step (A : w.Accounted rs)
    (hc : Hub.Counted w.hub hub (settled.map Receipt.outcome)) :
    hub.tally = .of ((rs ++ settled.toList).map Receipt.outcome) ∧
      (rs ++ settled.toList).length = hub.tally.total := by
  have htally := hc.tally_eq A.tally
  have htotal := hc.total_eq
  rw [List.map_append, List.length_append, A.balance]
  cases settled <;> exact ⟨htally, htotal.symm⟩

theorem pushed_turn (A : w.Accounted rs) (T : w.Trades i t t' c c' made noted settled)
    {k : Nat} {u : Task} {z : Cycle} (hu : (w.advance i t' c' hub commits).tasks.get? k = some u)
    (hz : u.activity = .cycle z) :
    pushedBy (rs ++ settled.toList) k ++ z.owes = z.generated := by
  rw [pushedBy_append rs T.settler]
  rw [get?_tasks_advance] at hu
  split at hu
  · next hk =>
    cases hu
    obtain ⟨y, hy, howes⟩ := T.owes z hz
    have hgenerated := T.generated
    rw [Task.events_of_cycle hz, Task.events_of_cycle hy] at hgenerated
    rw [if_pos hk.symm, List.append_assoc, ← howes, ← List.append_assoc, hk, A.pushed T.task hy,
      hgenerated]
  · next hk =>
    rw [if_neg (Ne.symm hk), List.append_nil]
    exact A.pushed hu hz

theorem amount_turn (T : w.Trades i t t' c c' made noted settled) (hub : Hub Event)
    (commits : List Commit) (kind : Kind) (change : Change) (of : Cycle → List Event) :
    (w.advance i t' c' hub commits).amount kind change of +
        (if t.kind = kind then ofChange change (t.events of) else 0) =
      w.amount kind change of + if t.kind = kind then ofChange change (t'.events of) else 0 := by
  have h := Table.weigh_replace (weight kind change of) t' T.task
  simp only [weight, T.kind] at h
  exact h

theorem counted_turn (A : w.Accounted rs) (T : w.Trades i t t' c c' made noted settled)
    {d : Collector} (hd : (w.advance i t' c' hub commits).collectors.get? kind = some d)
    (change : Change) :
    d.counts.of change + (w.advance i t' c' hub commits).amount kind change Cycle.uncounted =
      (w.advance i t' c' hub commits).amount kind change Cycle.generated := by
  have huncounted := amount_turn T hub commits kind change Cycle.uncounted
  have hgenerated := amount_turn T hub commits kind change Cycle.generated
  rw [get?_collectors_advance, T.kind] at hd
  split at hd
  · next hk =>
    subst hk
    cases hd
    have hbefore := A.counted T.collector change
    have hcounts := T.counts change
    have hu := congrArg (ofChange change) T.uncounted
    have hg := congrArg (ofChange change) T.generated
    rw [ofChange_append, ofChange_append] at hu
    rw [ofChange_append] at hg
    simp only [if_true] at huncounted hgenerated
    omega
  · next hk =>
    have hbefore := A.counted hd change
    rw [if_neg (Ne.symm hk), if_neg (Ne.symm hk)] at huncounted hgenerated
    omega

theorem turn (A : w.Accounted rs) (S : w.Sound) (T : w.Trades i t t' c c' made noted settled)
    (hc : Hub.Counted w.hub hub (settled.map Receipt.outcome)) :
    (w.advance i t' c' hub commits).Accounted (rs ++ settled.toList) where
  tally := (A.hub_step hc).1
  balance := (A.hub_step hc).2
  dated := by
    have hlast : (w.advance i t' c' hub commits).nextTask = w.nextTask :=
      Nat.max_eq_left (S.begun T.task).1
    intro r hr
    rw [hlast]
    rcases List.mem_append.1 hr with hr | hr
    · exact A.dated r hr
    · rw [T.settler r (Option.mem_toList.1 hr)]
      exact (S.begun T.task).1
  pushed := A.pushed_turn T
  counted := A.counted_turn T

/-! ## Other steps -/

theorem begins (A : w.Accounted rs) (S : w.Sound) (hc : w.collectors.get? t.kind = some c)
    (hcounts : c'.counts = c.counts) (hnone : ∀ of : Cycle → List Event, (∀ y : Cycle,
      y.stage = .locking → of y = []) → t.events of = [])
    (howes : ∀ y, t.activity = .cycle y → y.owes = [] ∧ y.generated = [])
    (hhub : Hub.Counted w.hub hub none) :
    (w.advance w.nextTask t c' hub []).Accounted rs := by
  have hsame : ∀ kind change of, (∀ y : Cycle, y.stage = .locking → of y = []) →
      (w.advance w.nextTask t c' hub []).amount kind change of = w.amount kind change of := by
    intro kind change of hof
    show (w.tasks.insert w.nextTask t).weigh _ = _
    rw [Table.weigh_insert_new _ _ S.get?_nextTask]
    simp [weight, hnone of hof, ofChange, amount]
  have hhub' : hub.tally = w.hub.tally := by
    cases hhub
    assumption
  constructor
  case tally => exact hhub'.trans A.tally
  case balance => exact A.balance.trans (congrArg _ hhub'.symm)
  case dated => exact fun r hr => Nat.lt_of_lt_of_le (A.dated r hr) (Nat.le_max_left _ _)
  case pushed =>
    intro k u y hu hy
    rw [get?_tasks_advance] at hu
    split at hu
    · next hk =>
      cases hu
      have hpushed : pushedBy rs k = [] := by
        simp only [pushedBy, List.map_eq_nil_iff, List.filter_eq_nil_iff, decide_eq_true_eq]
        exact fun r hr => Nat.ne_of_lt (hk ▸ A.dated r hr)
      rw [hpushed, (howes y hy).1, (howes y hy).2]
      rfl
    · exact A.pushed hu hy
  case counted =>
    intro kind d hd change
    rw [hsame _ _ _ fun y hy => by simp [Cycle.uncounted, hy],
      hsame _ _ _ fun y hy => by simp [Cycle.generated, hy]]
    rw [get?_collectors_advance] at hd
    split at hd
    · next hk =>
      subst hk
      cases hd
      rw [hcounts]
      exact A.counted hc change
    · exact A.counted hd change

theorem withHub (A : w.Accounted rs) (hc : Hub.Counted w.hub hub none) :
    Accounted { w with hub } rs where
  tally := by
    have h := hc.tally_eq A.tally
    rwa [Option.toList_none, List.append_nil] at h
  balance := A.balance.trans hc.total_eq.symm
  dated := A.dated
  pushed := A.pushed
  counted := A.counted

/-! ## Every step -/

theorem step (A : w.Accounted rs) (S : w.Sound) (h : w.step a = some w') :
    w'.Accounted (rs ++ (w.receipt? a).toList) ∧
      Hub.Counted w.hub w'.hub ((w.receipt? a).map Receipt.outcome) := by
  cases step_of_step h with
  | @reconcile kind c key hc =>
    simp only [receipt?, Option.toList_none, List.append_nil]
    refine ⟨A.begins S hc rfl (fun of hof => hof _ rfl) ?_ (.nothing rfl), .nothing rfl⟩
    rintro _ ⟨⟩
    exact ⟨rfl, rfl⟩
  | @join kind c node hub hc hj =>
    simp only [receipt?, Option.toList_none, List.append_nil]
    have hcounted := counted_nextJoin hj
    refine ⟨A.begins S hc rfl (fun _ _ => rfl) ?_ hcounted, hcounted⟩
    rintro _ ⟨⟩
  | @cycle i t c c' y y' m hub commit made ht hc ha hm =>
    have hreceipt : w.receipt? (.cycle i m) = Receipt.of? i (y.returns? w.hub m) := by
      simp [receipt?, ht, ha]
    have hstep := Collector.moveCycle_step hm
    have hcounted := hstep.counted
    rw [← Receipt.map_outcome_of?] at hcounted
    obtain ⟨events, noted, T⟩ := trades_cycle ht hc ha hstep commit
    rw [hreceipt]
    exact ⟨A.turn S T hcounted, hcounted⟩
  | @replay i t c c' r r' m hub commit cancelled ht hc ha hm =>
    have hreceipt : w.receipt? (.replay i m) = Receipt.of? i (r.returns? c w.hub m) := by
      simp [receipt?, ht, hc, ha]
    obtain ⟨sent, hstep⟩ := Collector.moveReplay_step hm
    have hcounted := hstep.counted (S.of_replay ht ha hc)
    rw [← Receipt.map_outcome_of?] at hcounted
    rw [hreceipt]
    exact ⟨A.turn S (trades_replay ht hc ha hstep commit cancelled) hcounted, hcounted⟩
  | wish wish =>
    simp only [receipt?, Option.toList_none, List.append_nil]
    have hcounted := counted_grant S.hub wish
    exact ⟨A.withHub hcounted, hcounted⟩

end Accounted

/-! ## The beginning -/

/-- Nobody has counted anything. -/
def Blank (d : Daemon) : Prop :=
  d.hub.streams = ∅ ∧ d.hub.stats.droppedNotConnected = 0 ∧ d.hub.stats.droppedQueueFull = 0 ∧
    ∀ {kind c}, d.collectors.get? kind = some c → c.counts = {}

theorem blank_enable {d : Daemon} (h : Blank d) (kind : Kind) (backoff : Backoff) :
    Blank (d.enable kind backoff) := by
  obtain ⟨hstreams, hconnected, hfull, hcounts⟩ := h
  refine ⟨hstreams, hconnected, hfull, ?_⟩
  intro k c hc
  simp only [Daemon.enable, Table.get?_insert] at hc
  split at hc
  · cases hc
    rfl
  · exact hcounts hc

theorem blank_daemon (s : Settings) : Blank s.daemon := by
  unfold Settings.daemon
  have h0 : Blank { hub := { config := s.hubConfig } } :=
    ⟨rfl, rfl, rfl, fun hc => by contradiction⟩
  exact List.foldlRecOn s.enabled _ h0 fun _ h kind _ => blank_enable h kind s.backoff

theorem accounted_start (s : Settings) : (start s).Accounted [] := by
  obtain ⟨hstreams, hconnected, hfull, hcounts⟩ := blank_daemon s
  have htally : s.daemon.hub.tally = {} := by
    rw [Hub.tally, hstreams, hconnected, hfull]
    rfl
  constructor
  case tally => exact htally
  case balance =>
    show 0 = s.daemon.hub.tally.total
    rw [htally]
    rfl
  case counted =>
    intro kind c hc change
    rw [hcounts hc]
    cases change <;> rfl
  all_goals intros; contradiction

theorem Receipted.accounted (h : w.Receipted rs) : w.Accounted rs := by
  induction h with
  | start s => exact accounted_start s
  | step a hw hs ih => exact (ih.step hw.reachable.sound hs).1

/-! ## Cycles that have returned -/

namespace Accounted

theorem pushed_of_ok (A : w.Accounted rs) {events : List Event} (ht : w.tasks.get? i = some t)
    (ha : t.activity = .cycle y) (ho : y.outcome? = some (.ok events)) :
    pushedBy rs i = events := by
  have hp := A.pushed ht ha
  rw [Cycle.outcome?_eq_some] at ho
  simpa [Cycle.owes, Cycle.generated, ho] using hp

theorem pushed_of_error (A : w.Accounted rs) {e : CycleError} (ht : w.tasks.get? i = some t)
    (ha : t.activity = .cycle y) (ho : y.outcome? = some (.error e)) : pushedBy rs i = [] := by
  have hp := A.pushed ht ha
  rw [Cycle.outcome?_eq_some] at ho
  simpa [Cycle.owes, Cycle.generated, ho] using hp

/-- Between a commit and the return of its cycle there are events still to be counted. When no
cycle is there, a collector has counted what its cycles returned. -/
theorem counted_returned (A : w.Accounted rs) (hc : w.collectors.get? kind = some c)
    (hrest : ∀ i t y, w.tasks.get? i = some t → t.kind = kind → t.activity = .cycle y →
      y.isPushing = false) (change : Change) :
    c.counts.of change = w.amount kind change Cycle.returned := by
  have hquiet : ∀ t ∈ w.tasks.values, t.kind = kind →
      t.events Cycle.uncounted = [] ∧ t.events Cycle.generated = t.events Cycle.returned := by
    intro t ht hk
    obtain ⟨i, hi⟩ := Table.mem_values_iff.1 ht
    cases ha : t.activity with
    | cycle y =>
      have hno := hrest i t y hi hk ha
      simp only [Task.events_of_cycle ha]
      exact ⟨Cycle.uncounted_eq_nil hno, Cycle.generated_eq_returned hno⟩
    | replay r => simp [Task.events, ha]
  have huncounted : w.amount kind change Cycle.uncounted = 0 := by
    refine Table.weigh_eq_zero.2 fun t ht => ?_
    unfold weight
    split
    · next hk =>
      rw [(hquiet t ht hk).1]
      rfl
    · rfl
  have hgenerated : w.amount kind change Cycle.generated =
      w.amount kind change Cycle.returned := by
    refine Table.weigh_congr fun t ht => ?_
    unfold weight
    split
    · next hk => rw [(hquiet t ht hk).2]
    · rfl
  rw [← hgenerated, ← A.counted hc change, huncounted, Nat.add_zero]

end Accounted

/-- The streams that were ever registered and the hub have counted as many pushes, at once or paced,
as returned, each once and under what it returned. What a stream counts is what was put into it. A
collector has counted the events that its cycles generated, but for those that a cycle has committed
and is still to count, and so just the events that its cycles returned once no cycle is on its way
from its commit to its return. Each of these events was pushed once. -/
theorem Receipted.pushes_accounted (h : w.Receipted rs) :
    (rs.length = w.hub.tally.total ∧ w.hub.tally = .of (rs.map Receipt.outcome)) ∧
    (∀ a w', w.step a = some w' →
      Hub.Counted w.hub w'.hub ((w.receipt? a).map Receipt.outcome)) ∧
    (∀ g s, w.hub.streams.get? g = some s → s.delivered = (w.hub.logOf g).length) ∧
    (∀ i t y, w.tasks.get? i = some t → t.activity = .cycle y →
      pushedBy rs i ++ y.owes = y.generated ∧
        (∀ events, y.outcome? = some (.ok events) → pushedBy rs i = events) ∧
        ∀ e, y.outcome? = some (.error e) → pushedBy rs i = []) ∧
    (∀ kind c change, w.collectors.get? kind = some c →
      c.counts.of change + w.amount kind change Cycle.uncounted =
          w.amount kind change Cycle.generated ∧
        ((∀ i t y, w.tasks.get? i = some t → t.kind = kind → t.activity = .cycle y →
            y.isPushing = false) →
          c.counts.of change = w.amount kind change Cycle.returned)) := by
  have A := h.accounted
  have S := h.reachable.sound
  refine ⟨⟨A.balance, A.tally⟩, fun a w' hs => (A.step S hs).2, ?_, ?_, ?_⟩
  · intro g s hs
    rw [Hub.logOf_eq hs]
    exact (S.hub.sound hs).counted
  · exact fun i t y ht ha => ⟨A.pushed ht ha, fun events => A.pushed_of_ok ht ha,
      fun e => A.pushed_of_error ht ha⟩
  · exact fun kind c change hc =>
      ⟨A.counted hc change, fun hrest => A.counted_returned hc hrest change⟩

/-- An event reaches its node and another finds its node gone. A replay waits for room in vain. -/
def threeEnds : List Action :=
  [.wish (.register "a"), .wish (.announce "a"), .reconcile .deployment ⟨"default", "web"⟩,
    .cycle 0 (.lock false), .cycle 0 (.fetch (.ok (some default))),
    .cycle 0 (.resolve (.ok (.ofList ["a", "b"]))), .cycle 0 (.commit false), .cycle 0 .push,
    .cycle 0 .offer, .cycle 0 .push, .cycle 0 .finish, .join .deployment,
    .replay 1 (.list ⟨"default", "web"⟩), .replay 1 (.visit false), .replay 1 .lock,
    .replay 1 .reserve, .replay 1 .expire]

theorem pushes_accounted_threeEnds : ∃ w c,
    (start { queueCapacity := 1 }).run threeEnds = some w ∧
      w.collectors.get? .deployment = some c ∧
      ((start { queueCapacity := 1 }).receipts threeEnds).length = 3 ∧
      w.hub.tally = ⟨1, 1, 1⟩ ∧ c.counts.of .added = 2 ∧
      w.amount .deployment .added Cycle.returned = 2 := by
  have hrun : ∃ w c, (start { queueCapacity := 1 }).run threeEnds = some w ∧
      w.collectors.get? .deployment = some c ∧
      ((start { queueCapacity := 1 }).receipts threeEnds).map Receipt.outcome =
        [.ok (), .error (.notConnected "b"), .error (.queueFull "a" 1)] ∧
      (w.tasks.values.all fun t => match t.activity with
        | .cycle y => !y.isPushing
        | .replay _ => true) = true ∧ c.counts.of .added = 2 :=
    ⟨_, _, rfl, rfl, rfl, rfl, rfl⟩
  obtain ⟨w, c, hw, hc, houtcomes, hquiet, hadded⟩ := hrun
  obtain ⟨⟨htotal, htally⟩, -, -, -, hcounts⟩ :=
    ((Receipted.start { queueCapacity := 1 }).run hw).pushes_accounted
  rw [List.nil_append] at htotal htally
  rw [houtcomes] at htally
  have hthree : w.hub.tally = ⟨1, 1, 1⟩ := htally
  refine ⟨w, c, hw, hc, ?_, hthree, hadded, ?_⟩
  · rw [htotal, hthree]
    rfl
  · rw [← (hcounts .deployment c .added hc).2, hadded]
    intro i t y ht _ ha
    have hno := List.all_eq_true.1 hquiet t (Table.mem_values_iff.2 ⟨i, ht⟩)
    simpa [ha] using hno

end World

end Nodecast
