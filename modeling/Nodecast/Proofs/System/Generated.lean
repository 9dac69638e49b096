import Nodecast.Proofs.Histories
import Nodecast.Proofs.System.Runs

/-!
# What the cycles generate

A run is recorded by the steps that its cycles committed. From the record one reads what every node
was to be told about an object, whether or not it was connected.
-/

namespace Nodecast

/-- A step that a cycle committed. -/
structure Report where
  task : Nat
  kind : Kind
  key : Key
  step : Transition

def Report.events (r : Report) : List Event := r.step.events r.key

/-- The steps about one object, the oldest first. -/
def stepsOf (rs : List Report) (kind : Kind) (key : Key) : List Transition :=
  (rs.filter fun r => r.kind = kind ∧ r.key = key).map Report.step

def generatedBy (rs : List Report) (task : Nat) : List Event :=
  (rs.filter fun r => r.task = task).flatMap Report.events

theorem stepsOf_append (rs rs' : List Report) (kind : Kind) (key : Key) :
    stepsOf (rs ++ rs') kind key = stepsOf rs kind key ++ stepsOf rs' kind key := by
  simp [stepsOf]

theorem generatedBy_append (rs rs' : List Report) (task : Nat) :
    generatedBy (rs ++ rs') task = generatedBy rs task ++ generatedBy rs' task := by
  simp [generatedBy]

namespace Cycle

/-- The step that the cycle commits in the move. -/
def committed? (y : Cycle) (m : Cycle.Move) : Option Transition :=
  match y.stage, m with
  | .committing _ step, .commit false => some step
  | _, _ => none

/-- The events that the cycle has generated, pushed or not. -/
def generated (y : Cycle) : List Event :=
  match y.stage with
  | .pushing events _ | .offering events .. | .ended (.ok events) => events
  | _ => []

end Cycle

variable {c c' : Collector} {hub hub' : Hub Event} {y y' : Cycle} {m : Cycle.Move}

theorem committed?_eq_none (h : y.commits m = false) : y.committed? m = none := by
  unfold Cycle.commits at h
  unfold Cycle.committed?
  split at h <;> simp_all

theorem Collector.CycleStep.generated_eq (h : c.CycleStep hub y m y' c' hub')
    (hno : y.commits m = false) : y'.generated = y.generated := by
  cases h with
  | lock cancelled hs =>
    rw [show y.generated = [] by simp [Cycle.generated, hs]]
    cases cancelled <;> rfl
  | fetch answer hs =>
    rw [show y.generated = [] by simp [Cycle.generated, hs]]
    unfold Collector.fetched
    split <;> rfl
  | resolve object prior answer hs =>
    rw [show y.generated = [] by simp [Cycle.generated, hs]]
    cases answer <;> rfl
  | cancel hs =>
    rcases hs with hs | ⟨object, prior, hs⟩
    · rw [show y.generated = [] by simp [Cycle.generated, hs]]
      rfl
    · rw [show y.generated = [] by simp [Cycle.generated, hs]]
      rfl
  | commit hadPrior t cancelled hs =>
    rw [show y.generated = [] by simp [Cycle.generated, hs]]
    cases cancelled
    · simp [Cycle.commits, hs] at hno
    · rfl
  | miss events e rest hs | find events e rest g s hs | offer events g e rest hs =>
    simp [Cycle.generated, hs]
  | finish events hs =>
    rw [show y.generated = events by simp [Cycle.generated, hs]]
    rfl

namespace World

variable {w w' : World} {rs : List Report} {kind : Kind} {key : Key} {a : Action}

/-! ## Recorded runs -/

/-- There is something to report if a cycle commits. -/
def report? (w : World) : Action → Option Report
  | .cycle i m => do
    let t ← w.tasks.get? i
    match t.activity with
    | .cycle y => (y.committed? m).map fun step => ⟨i, t.kind, y.key, step⟩
    | .replay _ => none
  | _ => none

inductive Recorded : World → List Report → Prop where
  | start (s : Settings) : Recorded (start s) []
  | step {w w' : World} {rs : List Report} (a : Action) : Recorded w rs → w.step a = some w' →
      Recorded w' (rs ++ (w.report? a).toList)

/-- The record of a run. -/
def record (w : World) : List Action → List Report
  | [] => []
  | a :: as => (w.report? a).toList ++ ((w.step a).map fun w' => w'.record as).getD []

theorem Recorded.run (h : Recorded w rs) {as : List Action} (hr : w.run as = some w') :
    Recorded w' (rs ++ w.record as) := by
  induction as generalizing w rs with
  | nil =>
    cases hr
    simpa [record] using h
  | cons a rest ih =>
    obtain ⟨w1, h1, hr⟩ := Option.bind_eq_some_iff.1 hr
    have hrest := ih (.step a h h1) hr
    simpa [record, h1, List.append_assoc] using hrest

theorem Recorded.reachable (h : Recorded w rs) : Reachable w := by
  induction h with
  | start s => exact .start s
  | step a _ hs ih => exact .step a ih hs

/-! ## One step -/

/-- Nothing is committed, and no cycle generates anything. -/
structure Quiet (w w' : World) : Prop where
  commits : w'.commits = w.commits
  begun : w.nextTask ≤ w'.nextTask
  tasks : ∀ {i t y}, w'.tasks.get? i = some t → t.activity = .cycle y →
    (∃ t0 y0, w.tasks.get? i = some t0 ∧ t0.activity = .cycle y0 ∧ y.generated = y0.generated) ∨
      (w.nextTask ≤ i ∧ y.generated = [])

theorem quiet_advance {i : Nat} {t : Task} {c : Collector} {hub : Hub Event}
    (h : ∀ y, t.activity = .cycle y →
      (∃ t0 y0, w.tasks.get? i = some t0 ∧ t0.activity = .cycle y0 ∧ y.generated = y0.generated) ∨
        (w.nextTask ≤ i ∧ y.generated = [])) : Quiet w (w.advance i t c hub []) where
  commits := List.append_nil _
  begun := Nat.le_max_left _ _
  tasks := by
    intro j t' y ht ha
    rw [get?_tasks_advance] at ht
    split at ht
    · next hj =>
      cases ht
      rw [hj]
      exact h y ha
    · exact Or.inl ⟨t', y, ht, ha, rfl⟩

theorem quiet_of_tasks (hcommits : w'.commits = w.commits) (hbegun : w'.nextTask = w.nextTask)
    (htasks : w'.tasks = w.tasks) : Quiet w w' where
  commits := hcommits
  begun := Nat.le_of_eq hbegun.symm
  tasks := fun ht ha => Or.inl ⟨_, _, htasks ▸ ht, ha, rfl⟩

/-- Task `i` commits a step by going from `w` to `w'`. -/
structure Commits (w : World) (i : Nat) (t : Task) (y : Cycle) (step : Transition) (w' : World) :
    Prop where
  task : w.tasks.get? i = some t
  cycle : t.activity = .cycle y
  leads : step.LeadsFrom t.kind (w.lefts t.kind y.key).getLast?.join
  commits : w'.commits = w.commits ++ [⟨t.kind, y.key, step.left⟩]
  begun : w.nextTask ≤ w'.nextTask
  tasks : ∃ t' y', t'.activity = .cycle y' ∧ y.generated = [] ∧
    y'.generated = step.events y.key ∧
    ∀ j, w'.tasks.get? j = if j = i then some t' else w.tasks.get? j

theorem commits_commit {i : Nat} {t : Task} {y : Cycle} {c : Collector} {hadPrior : Bool}
    {step : Transition} (S : w.Sound) (ht : w.tasks.get? i = some t)
    (ha : t.activity = .cycle y) (hc : w.collectors.get? t.kind = some c)
    (hs : y.stage = .committing hadPrior step)
    (hm : w.moveCycle i t c y (.commit false) = some w') :
    w.Commits i t y step w' := by
  obtain ⟨d, hd, hy⟩ := S.tasks ht
  rw [hc, Option.some.injEq] at hd
  subst hd
  simp only [Task.Sound, ha, Cycle.Sound, hs] at hy
  obtain ⟨-, hhad, hleads⟩ := hy
  rw [S.kinds hc, S.cached hc y.key] at hleads
  have hcycle : c.moveCycle w.hub y (.commit false) =
      some ((c.commit y hadPrior step false).1, (c.commit y hadPrior step false).2, w.hub) := by
    simp [Collector.moveCycle, Collector.moveUnheard, hs]
  have hcommits : y.commits (.commit false) = true := by simp [Cycle.commits, hs]
  have hleft : (c.commit y hadPrior step false).2.cache.get? y.key = step.left := by
    have hget := get?_commit hhad step y.key
    rwa [if_pos rfl] at hget
  simp only [moveCycle, hcycle, Option.map_some, hcommits, if_true, hleft, Option.some.injEq] at hm
  subst hm
  exact
    { task := ht
      cycle := ha
      leads := hleads
      commits := rfl
      begun := Nat.le_max_left _ _
      tasks := ⟨_, _, rfl, by simp [Cycle.generated, hs], rfl, get?_tasks_advance⟩ }

theorem step_recorded (S : w.Sound) (h : w.step a = some w') :
    (w.report? a = none ∧ Quiet w w') ∨ ∃ i t y step,
      w.report? a = some ⟨i, t.kind, y.key, step⟩ ∧ w.Commits i t y step w' := by
  cases a with
  | reconcile kind key =>
    obtain ⟨c, -, rfl⟩ := Option.map_eq_some_iff.1 h
    refine Or.inl ⟨rfl, quiet_advance fun y ha => Or.inr ⟨Nat.le_refl _, ?_⟩⟩
    cases ha
    rfl
  | join kind =>
    obtain ⟨c, -, h⟩ := Option.bind_eq_some_iff.1 h
    obtain ⟨⟨node, hub⟩, -, h⟩ := Option.bind_eq_some_iff.1 h
    cases h
    exact Or.inl ⟨rfl, quiet_advance fun y ha => nomatch ha⟩
  | cycle i m =>
    obtain ⟨t, ht, h⟩ := Option.bind_eq_some_iff.1 h
    obtain ⟨c, hc, h⟩ := Option.bind_eq_some_iff.1 h
    split at h
    · next y ha =>
      have hreport : w.report? (.cycle i m) =
          (y.committed? m).map fun step => ⟨i, t.kind, y.key, step⟩ := by
        simp [report?, ht, ha]
      rw [hreport]
      cases hm : y.commits m with
      | true =>
        obtain ⟨rfl, hadPrior, step, hs⟩ := commits_iff.1 hm
        refine Or.inr ⟨i, t, y, step, ?_, commits_commit S ht ha hc hs h⟩
        simp [Cycle.committed?, hs]
      | false =>
        rw [committed?_eq_none hm]
        obtain ⟨⟨y', c', hub⟩, hstep, hw⟩ := Option.map_eq_some_iff.1 h
        rw [hm] at hw
        obtain rfl := hw
        have hsame := (Collector.moveCycle_step hstep).generated_eq hm
        refine Or.inl ⟨rfl, quiet_advance fun y1 ha' => Or.inl ⟨t, y, ht, ha, ?_⟩⟩
        cases ha'
        exact hsame
    · contradiction
  | replay i m =>
    obtain ⟨t, -, h⟩ := Option.bind_eq_some_iff.1 h
    obtain ⟨c, -, h⟩ := Option.bind_eq_some_iff.1 h
    split at h
    · contradiction
    · next r ha =>
      obtain ⟨⟨r', c', hub⟩, -, rfl⟩ := Option.map_eq_some_iff.1 h
      exact Or.inl ⟨rfl, quiet_advance fun y ha => nomatch ha⟩
  | wish wish =>
    cases h
    exact Or.inl ⟨rfl, quiet_of_tasks rfl rfl rfl⟩

/-! ## What a record says -/

/-- The record agrees with what was committed and with what each cycle generated. -/
structure Agrees (w : World) (rs : List Report) : Prop where
  lefts : ∀ kind key, (stepsOf rs kind key).map Transition.left = w.lefts kind key
  steps : ∀ kind key, Succession kind (stepsOf rs kind key)
  begun : ∀ r ∈ rs, r.task < w.nextTask
  generated : ∀ {i t y}, w.tasks.get? i = some t → t.activity = .cycle y →
    y.generated = generatedBy rs i ∧ (y.generated.map Event.node).Nodup

theorem leftBy_eq (A : w.Agrees rs) (kind : Kind) (key : Key) :
    leftBy (stepsOf rs kind key) = (w.lefts kind key).getLast?.join := by
  rw [← A.lefts, List.getLast?_map, leftBy]
  cases (stepsOf rs kind key).getLast? <;> rfl

theorem generatedBy_eq_nil (A : w.Agrees rs) {i : Nat} (hi : w.nextTask ≤ i) :
    generatedBy rs i = [] := by
  have hnone : rs.filter (fun r => r.task = i) = [] := by
    rw [List.filter_eq_nil_iff]
    intro r hr hri
    rw [decide_eq_true_eq] at hri
    have := A.begun r hr
    omega
  rw [generatedBy, hnone]
  rfl

theorem Agrees.quiet (A : w.Agrees rs) (q : Quiet w w') : w'.Agrees rs where
  lefts := by
    intro kind key
    rw [A.lefts kind key]
    unfold World.lefts
    rw [q.commits]
  steps := A.steps
  begun := fun r hr => Nat.lt_of_lt_of_le (A.begun r hr) q.begun
  generated := by
    intro i t y ht ha
    rcases q.tasks ht ha with ⟨t0, y0, ht0, ha0, he⟩ | ⟨hi, he⟩
    · rw [he]
      exact A.generated ht0 ha0
    · rw [he, generatedBy_eq_nil A hi]
      exact ⟨rfl, .nil⟩

theorem Agrees.commit (A : w.Agrees rs) (S : w.Sound) {i : Nat} {t : Task} {y : Cycle}
    {step : Transition} (C : w.Commits i t y step w') :
    w'.Agrees (rs ++ [⟨i, t.kind, y.key, step⟩]) where
  lefts := by
    intro kind key
    have hl : w'.lefts kind key =
        w.lefts kind key ++ leftsOf [⟨t.kind, y.key, step.left⟩] kind key := by
      unfold World.lefts
      rw [C.commits]
      exact leftsOf_append _ _ _ _
    rw [hl, stepsOf_append, List.map_append, A.lefts kind key]
    congr 1
    by_cases hk : t.kind = kind ∧ y.key = key
    · simp [stepsOf, leftsOf, hk]
    · simp [stepsOf, leftsOf, hk]
  steps := by
    intro kind key
    rw [stepsOf_append]
    by_cases hk : t.kind = kind ∧ y.key = key
    · obtain ⟨rfl, rfl⟩ := hk
      have hone : stepsOf [⟨i, t.kind, y.key, step⟩] t.kind y.key = [step] := by simp [stepsOf]
      rw [hone]
      refine .snoc (A.steps _ _) ?_
      rw [leftBy_eq A]
      exact C.leads
    · have hnone : stepsOf [⟨i, t.kind, y.key, step⟩] kind key = [] := by simp [stepsOf, hk]
      rw [hnone, List.append_nil]
      exact A.steps kind key
  begun := by
    intro r hr
    refine Nat.lt_of_lt_of_le ?_ C.begun
    rcases List.mem_append.1 hr with hr | hr
    · exact A.begun r hr
    · rw [List.mem_singleton.1 hr]
      exact (S.begun C.task).1
  generated := by
    intro j t' y' ht ha
    obtain ⟨t1, y1, ha1, hnone, hgen, hget⟩ := C.tasks
    rw [hget] at ht
    rw [generatedBy_append]
    split at ht
    · next hj =>
      subst hj
      cases ht
      rw [ha1] at ha
      cases ha
      -- A cycle commits once, so nothing was reported of the task before.
      rw [← (A.generated C.task C.cycle).1, hnone, hgen]
      refine ⟨?_, C.leads.nodup_nodes y.key⟩
      simp [generatedBy, Report.events]
    · next hj =>
      obtain ⟨hgen', hnodup⟩ := A.generated ht ha
      refine ⟨?_, hnodup⟩
      rw [hgen']
      simp [generatedBy, Ne.symm hj]

theorem agrees_start (s : Settings) : (start s).Agrees [] where
  lefts := fun _ _ => rfl
  steps := fun _ _ => .nil
  begun := by simp
  generated := fun ht => nomatch ht

theorem Recorded.agrees (h : Recorded w rs) : w.Agrees rs := by
  induction h with
  | start s => exact agrees_start s
  | step a hr hs ih =>
    have S := hr.reachable.sound
    rcases step_recorded S hs with ⟨hnone, hq⟩ | ⟨i, t, y, step, hsome, hc⟩
    · rw [hnone, Option.toList_none, List.append_nil]
      exact ih.quiet hq
    · rw [hsome]
      exact ih.commit S hc

end World

end Nodecast
