import Nodecast.Proofs.System.Lined

/-!
# What a cycle does

Of all that a cycle does, only its commit and its pushes matter to others. It does all of them or
none.
-/

namespace Nodecast

variable {c c' : Collector} {hub hub' : Hub Event} {y y' : Cycle} {m : Cycle.Move}
  {ms : List Cycle.Move} {n commit : Nat} {kind : Kind} {key : Key} {cached : Option Entry}

/-! ## Deeds -/

inductive Deed where
  /-- It finds neither the object nor an entry of it, so there is nothing to commit. -/
  | pass
  | commit (prior : Option Entry) (step : Transition)
  /-- It counts an event and looks up the stream of its node, which is there or is not. -/
  | push (e : Event) (found : Option Nat)
  | offer (g : Nat) (e : Event)

namespace Deed

/-- What is cached and who is connected when the deed is done. -/
def Finds (hub : Hub Event) (cached : Option Entry) : Deed → Prop
  | .pass => cached = none
  | .commit prior _ => cached = prior
  | .push e found => (hub.connection? e.node).map Prod.fst = found
  | .offer .. => True

def onCache (key : Key) (cache : Cache) : Deed → Cache
  | .commit prior step => (cache.commit key prior.isSome step).2
  | .pass | .push .. | .offer .. => cache

def onCounts (counts : Counts) : Deed → Counts
  | .push e _ => counts.record e.change
  | .pass | .commit .. | .offer .. => counts

def onHub (hub : Hub Event) : Deed → Hub Event
  | .push e none => (hub.refuse e.node).2
  | .offer g e => (hub.offer e.node g e).2
  | .pass | .commit .. | .push _ (some _) => hub

/-- All that is done about an event for which this stream was found. -/
def pushes : Event × Option Nat → List Deed
  | (e, none) => [.push e none]
  | (e, some g) => [.push e (some g), .offer g e]

/-- A commit, and all that is done about these events after it. -/
def committed (prior : Option Entry) (step : Transition)
    (pushed : List (Event × Option Nat)) : List Deed :=
  .commit prior step :: pushed.flatMap pushes

end Deed

namespace Cycle

def deed? (y : Cycle) (hub : Hub Event) (cached : Option Entry) (m : Move) : Option Deed :=
  match y.stage, m with
  | .fetching, .fetch (.ok none) => if cached = none then some .pass else none
  | .committing _ step, .commit false => some (.commit cached step)
  | .pushing _ (e :: _), .push => some (.push e ((hub.connection? e.node).map Prod.fst))
  | .offering _ g e _, .offer => some (.offer g e)
  | _, _ => none

/-- The step leads from what is cached to what the cycle was told in its moves. -/
def Aims (kind : Kind) (cached : Option Entry) (ms : List Move) (step : Transition) : Prop :=
  ([.lock false, .fetch (.ok none)] <+: ms ∧ ∃ e, cached = some e ∧ step = e.retire) ∨
  ∃ object nodes, [.lock false, .fetch (.ok (some object)), .resolve (.ok nodes)] <+: ms ∧
    step = Collector.transition kind cached object nodes

/-- A cycle that was told `ms` returns the events it has generated, and has done all it was to do:
it has committed, and counted every event and pushed it to the stream that was found for it. -/
def Completed (kind : Kind) (key : Key) (ms : List Move) (events : List Event)
    (ds : List Deed) : Prop :=
  (events = [] ∧ ms = [.lock false, .fetch (.ok none)] ∧ ds = [.pass]) ∨
  ∃ prior step pushed, Aims kind prior ms step ∧ events = step.events key ∧
    pushed.map Prod.fst = events ∧ ds = Deed.committed prior step pushed

/-- What a cycle that has come to a stage has been told, and what it has done. -/
def Accounts (y : Cycle) (kind : Kind) (cached : Option Entry) (ms : List Move)
    (ds : List Deed) : Prop :=
  match y.stage with
  | .locking => ms = [] ∧ ds = []
  | .fetching => ms = [.lock false] ∧ ds = []
  | .resolving object _ => ms = [.lock false, .fetch (.ok (some object))] ∧ ds = []
  | .committing _ step => Aims kind cached ms step ∧ ds = []
  | .pushing events rest => ∃ prior step pushed, Aims kind prior ms step ∧
      events = step.events y.key ∧ events = pushed.map Prod.fst ++ rest ∧
      ds = Deed.committed prior step pushed
  | .offering events g e rest => ∃ prior step pushed, Aims kind prior ms step ∧
      events = step.events y.key ∧ events = pushed.map Prod.fst ++ e :: rest ∧
      ds = Deed.committed prior step pushed ++ [.push e (some g)]
  | .ended (.ok events) => Completed kind y.key ms events ds
  | .ended (.error _) => ds = []

theorem Aims.mono {step : Transition} {ms' : List Move} (h : Aims kind cached ms step) :
    Aims kind cached (ms ++ ms') step := by
  rcases h with ⟨hms, hstep⟩ | ⟨object, nodes, hms, hstep⟩
  · exact .inl ⟨hms.trans (List.prefix_append _ _), hstep⟩
  · exact .inr ⟨object, nodes, hms.trans (List.prefix_append _ _), hstep⟩

theorem Accounts.congr {y : Cycle} {ds : List Deed} {cached' : Option Entry}
    (h : y.Accounts kind cached ms ds)
    (hsame : ∀ hadPrior step, y.stage = .committing hadPrior step → cached' = cached) :
    y.Accounts kind cached' ms ds := by
  unfold Accounts at h ⊢
  cases hs : y.stage with
  | committing hadPrior step =>
    rw [hs] at h
    rwa [hsame _ _ hs]
  | ended outcome =>
    rw [hs] at h
    cases outcome <;> exact h
  | locking | fetching | resolving | pushing | offering => rwa [hs] at h

theorem stage_of_commits {y : Cycle} {prior : Option Entry} {step : Transition}
    (h : y.deed? hub cached m = some (.commit prior step)) :
    ∃ hadPrior, y.stage = .committing hadPrior step := by
  unfold deed? at h
  split at h
  · split at h <;> cases h
  · next hadPrior step' hs =>
    cases h
    exact ⟨hadPrior, hs⟩
  · cases h
  · cases h
  · contradiction

end Cycle

/-! ## One step of a cycle -/

theorem Collector.CycleStep.accounts {ds : List Deed} (h : c.CycleStep hub y m y' c' hub')
    (hy : y.Sound c hub n commit) (ha : y.Accounts c.kind (c.cache.get? y.key) ms ds) :
    y'.Accounts c.kind (c'.cache.get? y.key) (ms ++ [m])
      (ds ++ (y.deed? hub (c.cache.get? y.key) m).toList) := by
  cases h with
  | lock cancelled hs =>
    simp only [Cycle.Accounts, hs] at ha
    obtain ⟨rfl, rfl⟩ := ha
    simp only [Cycle.deed?, hs]
    cases cancelled
    · exact ⟨rfl, rfl⟩
    · rfl
  | fetch answer hs =>
    simp only [Cycle.Accounts, hs] at ha
    obtain ⟨rfl, rfl⟩ := ha
    simp only [Cycle.deed?, hs]
    rcases answer with e | _ | object
    · rfl
    · unfold Collector.fetched
      cases hcached : c.cache.get? y.key with
      | none => exact .inl ⟨rfl, rfl, rfl⟩
      | some e => exact ⟨.inl ⟨List.prefix_refl _, e, hcached, rfl⟩, rfl⟩
    · exact ⟨rfl, rfl⟩
  | resolve object prior answer hs =>
    simp only [Cycle.Accounts, hs] at ha
    obtain ⟨rfl, rfl⟩ := ha
    simp only [Cycle.Sound, hs] at hy
    obtain ⟨-, rfl⟩ := hy
    simp only [Cycle.deed?, hs]
    cases answer with
    | error e => rfl
    | ok nodes => exact ⟨.inr ⟨object, nodes, List.prefix_refl _, rfl⟩, rfl⟩
  | cancel hs =>
    rcases hs with hs | ⟨object, prior, hs⟩
    · simp only [Cycle.Accounts, hs] at ha
      simp only [Cycle.deed?, hs]
      simp [ha, Cycle.Accounts, Collector.cancelCycle, Collector.abortCycle, Collector.endCycle]
    · simp only [Cycle.Accounts, hs] at ha
      simp only [Cycle.deed?, hs]
      simp [ha, Cycle.Accounts, Collector.cancelCycle, Collector.abortCycle, Collector.endCycle]
  | commit hadPrior step cancelled hs =>
    simp only [Cycle.Accounts, hs] at ha
    obtain ⟨haims, rfl⟩ := ha
    simp only [Cycle.deed?, hs]
    cases cancelled
    · exact ⟨_, step, [], haims.mono, rfl, rfl, rfl⟩
    · rfl
  | miss events e rest hs hnone =>
    simp only [Cycle.Accounts, hs] at ha
    obtain ⟨prior, step, pushed, haims, he, hpushed, rfl⟩ := ha
    refine ⟨prior, step, pushed ++ [(e, none)], haims.mono, he, by simp [hpushed], ?_⟩
    simp [Cycle.deed?, hs, hnone, Deed.committed, Deed.pushes]
  | find events e rest g s hs hc =>
    simp only [Cycle.Accounts, hs] at ha
    obtain ⟨prior, step, pushed, haims, he, hpushed, rfl⟩ := ha
    refine ⟨prior, step, pushed, haims.mono, he, hpushed, ?_⟩
    simp [Cycle.deed?, hs, hc]
  | offer events g e rest hs =>
    simp only [Cycle.Accounts, hs] at ha
    obtain ⟨prior, step, pushed, haims, he, hpushed, rfl⟩ := ha
    refine ⟨prior, step, pushed ++ [(e, some g)], haims.mono, he, by simp [hpushed], ?_⟩
    simp [Cycle.deed?, hs, Deed.committed, Deed.pushes]
  | finish events hs =>
    simp only [Cycle.Accounts, hs] at ha
    obtain ⟨prior, step, pushed, haims, he, hpushed, rfl⟩ := ha
    rw [List.append_nil] at hpushed
    refine .inr ⟨prior, step, pushed, haims.mono, he, hpushed.symm, ?_⟩
    simp [Cycle.deed?, hs]

/-- A step of a cycle changes what others can see by its deed only. -/
theorem Collector.CycleStep.does (h : c.CycleStep hub y m y' c' hub')
    (hy : y.Sound c hub n commit) :
    let ds := (y.deed? hub (c.cache.get? y.key) m).toList
    (∀ d ∈ ds, d.Finds hub (c.cache.get? y.key)) ∧ hub' = ds.foldl Deed.onHub hub ∧
      c'.cache = ds.foldl (Deed.onCache y.key) c.cache ∧
      c'.counts = ds.foldl Deed.onCounts c.counts := by
  cases h with
  | lock cancelled hs =>
    simp only [Cycle.deed?, hs]
    cases cancelled <;> exact ⟨by simp, rfl, rfl, rfl⟩
  | fetch answer hs =>
    simp only [Cycle.deed?, hs]
    rcases answer with e | _ | object
    · exact ⟨by simp, rfl, rfl, rfl⟩
    · unfold Collector.fetched
      cases hcached : c.cache.get? y.key with
      | none => exact ⟨by simp [Deed.Finds], rfl, rfl, rfl⟩
      | some e => exact ⟨by simp, rfl, rfl, rfl⟩
    · exact ⟨by simp, rfl, rfl, rfl⟩
  | resolve object prior answer hs =>
    simp only [Cycle.deed?, hs]
    cases answer <;> exact ⟨by simp, rfl, rfl, rfl⟩
  | cancel hs =>
    rcases hs with hs | ⟨object, prior, hs⟩ <;> simp only [Cycle.deed?, hs] <;>
      exact ⟨by simp, rfl, rfl, rfl⟩
  | commit hadPrior step cancelled hs =>
    simp only [Cycle.Sound, hs] at hy
    obtain ⟨-, rfl, -⟩ := hy
    simp only [Cycle.deed?, hs]
    cases cancelled
    · exact ⟨by simp [Deed.Finds], rfl, rfl, rfl⟩
    · exact ⟨by simp, rfl, rfl, rfl⟩
  | miss events e rest hs hnone =>
    simp only [Cycle.deed?, hs, hnone]
    exact ⟨by simp [Deed.Finds, hnone], rfl, rfl, rfl⟩
  | find events e rest g s hs hc =>
    simp only [Cycle.deed?, hs, hc]
    exact ⟨by simp [Deed.Finds, hc], rfl, rfl, rfl⟩
  | offer events g e rest hs =>
    simp only [Cycle.deed?, hs]
    exact ⟨by simp [Deed.Finds], rfl, rfl, rfl⟩
  | finish events hs =>
    simp only [Cycle.deed?, hs]
    exact ⟨by simp, rfl, rfl, rfl⟩

/-- The call of a cycle stands as before, and so does what is cached under a key whose lock the
cycle has. -/
def Cycle.IsSpared (y : Cycle) (c c' : Collector) : Prop :=
  y.ticket? = some y.ticket → c'.locks.spot? y.ticket = c.locks.spot? y.ticket ∧
    (c.locks.Holds y.ticket y.key → c'.cache.get? y.key = c.cache.get? y.key)

namespace World

variable {w v v' : World} {i : Nat} {t : Task} {a : Action} {as : List Action} {ds : List Deed}

/-! ## Steps of others -/

theorem Sound.ticket_ne {j a b : Nat} {u : Task} (S : v.Sound) (hij : i ≠ j)
    (ht : v.tasks.get? i = some t) (hu : v.tasks.get? j = some u) (hk : t.kind = u.kind)
    (ha : t.ticket? = some a) (hb : u.ticket? = some b) : a ≠ b := by
  rintro rfl
  exact hij (S.tickets ht hu hk ha hb)

theorem cached_of_other {j : Nat} {u : Task} {z z' : Cycle} (S : v.Sound) (hij : i ≠ j)
    (ht : v.tasks.get? i = some t) (ha : t.activity = .cycle y) (hu : v.tasks.get? j = some u)
    (hz : u.activity = .cycle z) (hk : t.kind = u.kind) (hc : v.collectors.get? u.kind = some c)
    (hstep : c.CycleStep v.hub z m z' c' hub) (hmine : y.ticket? = some y.ticket)
    (h : c.locks.Holds y.ticket y.key) : c'.cache.get? y.key = c.cache.get? y.key := by
  by_cases hkey : z.key = y.key
  · have hsound := S.of_cycle hu hz hc
    rw [← hkey, (hstep.does hsound).2.2.1]
    cases hdeed : z.deed? v.hub (c.cache.get? z.key) m with
    | none => rfl
    | some d =>
      cases d with
      | pass | push | offer => rfl
      | commit prior step =>
        obtain ⟨hadPrior, hs⟩ := Cycle.stage_of_commits hdeed
        simp only [Cycle.Sound, hs] at hsound
        refine absurd ((S.locks hc).holds_unique h (hkey ▸ hsound.1)) ?_
        refine S.ticket_ne hij ht hu hk ?_ ?_
        · rwa [Task.ticket?, ha]
        · simp only [Task.ticket?, hz, hstep.ticket?_eq]
  · exact hstep.cache_eq (Ne.symm hkey)

theorem Step.stays (h : v.Step a v') (S : v.Sound) (ht : v.tasks.get? i = some t)
    (ha : t.activity = .cycle y) (hc : v.collectors.get? t.kind = some c)
    (hno : ∀ m, a ≠ .cycle i m) : v'.tasks.get? i = some t ∧
      ∃ c', v'.collectors.get? t.kind = some c' ∧ y.IsSpared c c' := by
  have hnew : i ≠ v.nextTask := Nat.ne_of_lt (S.begun ht).1
  have hlt : y.ticket? = some y.ticket → y.ticket < c.locks.nextTicket :=
    fun hmine => ((S.of_cycle ht ha hc).asks hmine).lt (S.locks hc)
  have hticket : t.ticket? = y.ticket? := by rw [Task.ticket?, ha]
  have hinsert : ∀ {k d d'}, v.collectors.get? k = some d →
      (t.kind = k → d = c → y.IsSpared d d') →
      ∃ c', (v.collectors.insert k d').get? t.kind = some c' ∧ y.IsSpared c c' := by
    intro k d d' hd hspared
    rw [Table.get?_insert]
    split
    · next hk =>
      rw [← hk, hc, Option.some.injEq] at hd
      subst hd
      exact ⟨d', rfl, hspared hk rfl⟩
    · exact ⟨c, hc, fun _ => ⟨rfl, fun _ => rfl⟩⟩
  cases h with
  | reconcile key hd =>
    refine ⟨?_, hinsert hd ?_⟩
    · rw [beginCycle, get?_tasks_advance, if_neg hnew, ht]
    · rintro - rfl hmine
      exact ⟨KeyedLock.spot?_request.trans (if_neg (Nat.ne_of_lt (hlt hmine))), fun _ => rfl⟩
  | join hd =>
    refine ⟨?_, hinsert hd fun _ _ _ => ⟨rfl, fun _ => rfl⟩⟩
    rw [beginReplay, get?_tasks_advance, if_neg hnew, ht]
  | @cycle j u _ _ z _ m hub commit made hu hd hz hm =>
    have hij : i ≠ j := by
      rintro rfl
      exact hno m rfl
    have hstep := Collector.moveCycle_step hm
    refine ⟨by rw [get?_tasks_advance, if_neg hij, ht], hinsert hd fun hk _ hmine => ?_⟩
    refine ⟨hstep.spot?_eq (S.ticket_ne hij ht hu hk (hticket.trans hmine) ?_), ?_⟩
    · simp only [Task.ticket?, hz, hstep.ticket?_eq]
    · exact cached_of_other S hij ht ha hu hz hk hd hstep hmine
  | @replay j u _ _ r _ m hub commit cancelled hu hd hr hm =>
    obtain ⟨sent, hstep⟩ := Collector.moveReplay_step hm
    have hij : i ≠ j := by
      rintro rfl
      exact ne_replay_of_cycle ht ha hu hr
    refine ⟨by rw [get?_tasks_advance, if_neg hij, ht], hinsert hd fun hk he hmine => ?_⟩
    subst he
    refine ⟨hstep.spot?_eq (fun hx => ?_) (hlt hmine), fun _ => by rw [hstep.same.1]⟩
    have hx' : u.ticket? = some y.ticket := by simp only [Task.ticket?, hr, hx]
    exact S.ticket_ne hij ht hu hk (hticket.trans hmine) hx' rfl
  | wish => exact ⟨ht, c, hc, fun _ => ⟨rfl, fun _ => rfl⟩⟩

/-! ## A run seen from one cycle -/

/-- What is done by going from `w` to `v`: nothing or one deed. -/
structure Does (w : World) (kind : Kind) (key : Key) (ds : List Deed) (v : World) : Prop where
  finds : ∀ {c d}, w.collectors.get? kind = some c → d ∈ ds → d.Finds w.hub (c.cache.get? key)
  hub : v.hub = ds.foldl Deed.onHub w.hub
  mine : ∀ {c}, w.collectors.get? kind = some c → ∃ c', v.collectors.get? kind = some c' ∧
    c'.cache = ds.foldl (Deed.onCache key) c.cache ∧
    c'.counts = ds.foldl Deed.onCounts c.counts
  others : ∀ {k}, k ≠ kind → v.collectors.get? k = w.collectors.get? k
  single : ds.length ≤ 1

/-- The moves of task `i` in a run. -/
def movesOf (i : Nat) (as : List Action) : List Cycle.Move :=
  as.filterMap fun
    | .cycle j m => if j = i then some m else none
    | _ => none

/-- In the run from `w` to `v` the steps of task `i` do `ds`, and nothing else. -/
inductive Did (w : World) (i : Nat) (kind : Kind) (key : Key) :
    List Action → List Deed → World → Prop where
  | start : Did w i kind key [] [] w
  | other {v v' : World} {as : List Action} {ds : List Deed} {a : Action} :
      Did w i kind key as ds v → (∀ m, a ≠ .cycle i m) → v.step a = some v' →
      Did w i kind key (as ++ [a]) ds v'
  | own {v v' : World} {as : List Action} {ds made : List Deed} {m : Cycle.Move} :
      Did w i kind key as ds v → v.step (.cycle i m) = some v' → Does v kind key made v' →
      Did w i kind key (as ++ [.cycle i m]) (ds ++ made) v'

/-- Task `i` is a cycle that was told `ms` and has done `ds`. -/
def Follows (v : World) (i : Nat) (kind : Kind) (key : Key) (ms : List Cycle.Move)
    (ds : List Deed) : Prop :=
  ∃ t y c, v.tasks.get? i = some t ∧ t.kind = kind ∧ t.activity = .cycle y ∧ y.key = key ∧
    v.collectors.get? kind = some c ∧ y.Accounts kind (c.cache.get? key) ms ds ∧
    (y.stage = .locking → c.locks.spot? y.ticket = some (key, false))

theorem Follows.other (h : v.Follows i kind key ms ds) (S : v.Sound) (hs : v.step a = some v')
    (hno : ∀ m, a ≠ .cycle i m) : v'.Follows i kind key ms ds := by
  obtain ⟨t, y, c, ht, rfl, ha, rfl, hc, haccounts, hqueued⟩ := h
  obtain ⟨ht', c', hc', hsame⟩ := (step_of_step hs).stays S ht ha hc hno
  have hsound := S.of_cycle ht ha hc
  refine ⟨t, y, c', ht', rfl, ha, rfl, hc', haccounts.congr fun hadPrior step hstage => ?_,
    fun hstage => ?_⟩
  · simp only [Cycle.Sound, hstage] at hsound
    exact (hsame (by simp [Cycle.ticket?, hstage])).2 hsound.1
  · rw [(hsame (by simp [Cycle.ticket?, hstage])).1, hqueued hstage]

theorem Follows.own (h : v.Follows i kind key ms ds) (S : v.Sound)
    (hs : v.step (.cycle i m) = some v') :
    ∃ made, Does v kind key made v' ∧ v'.Follows i kind key (ms ++ [m]) (ds ++ made) := by
  obtain ⟨t, y, c, ht, rfl, ha, rfl, hc, haccounts, -⟩ := h
  obtain ⟨c', y', hub, commit, made, hstep, rfl⟩ := cycleStep_of_step hs ht ha hc
  have hsound := S.of_cycle ht ha hc
  obtain ⟨hfinds, hhub, hcache, hcounts⟩ := hstep.does hsound
  have hkind := S.kinds hc
  refine ⟨_, ⟨?_, hhub, ?_, ?_, ?_⟩, ?_⟩
  · intro d e hd he
    rw [hc, Option.some.injEq] at hd
    subst hd
    exact hfinds e he
  · intro d hd
    rw [hc, Option.some.injEq] at hd
    subst hd
    exact ⟨c', by rw [get?_collectors_advance, if_pos rfl], hcache, hcounts⟩
  · intro k hk
    rw [get?_collectors_advance, if_neg hk]
  · cases y.deed? v.hub (c.cache.get? y.key) m <;> simp
  · have hacc := hstep.accounts hsound (hkind ▸ haccounts)
    rw [hkind] at hacc
    refine ⟨{ t with activity := .cycle y', commit }, y', c', ?_, rfl, rfl, hstep.key_eq, ?_, hacc,
      fun hstage => ?_⟩
    · rw [get?_tasks_advance, if_pos rfl]
    · rw [get?_collectors_advance, if_pos rfl]
    · simp [Cycle.Accounts, hstage] at hacc

theorem movesOf_append (i : Nat) (as bs : List Action) :
    movesOf i (as ++ bs) = movesOf i as ++ movesOf i bs := List.filterMap_append

theorem movesOf_other (hno : ∀ m, a ≠ .cycle i m) : movesOf i [a] = [] := by
  cases a with
  | cycle j m =>
    have hj : j ≠ i := by
      rintro rfl
      exact hno m rfl
    simp [movesOf, hj]
  | reconcile | join | replay | wish => rfl

theorem movesOf_own : movesOf i [.cycle i m] = [m] := by simp [movesOf]

theorem Follows.run (hw : Reachable v) (hd : Did w i kind key as ds v)
    (h : v.Follows i kind key (movesOf i as) ds) {bs : List Action} (hr : v.run bs = some v') :
    ∃ ds', Did w i kind key (as ++ bs) ds' v' ∧
      v'.Follows i kind key (movesOf i (as ++ bs)) ds' := by
  induction bs generalizing v as ds with
  | nil =>
    cases hr
    rw [List.append_nil]
    exact ⟨ds, hd, h⟩
  | cons a rest ih =>
    obtain ⟨v1, h1, hrest⟩ := Option.bind_eq_some_iff.1 hr
    rw [List.append_cons]
    by_cases hown : ∃ m, a = .cycle i m
    · obtain ⟨m, rfl⟩ := hown
      obtain ⟨made, hdoes, hfollows⟩ := h.own hw.sound h1
      refine ih (hw.step _ h1) (hd.own h1 hdoes) ?_ hrest
      rwa [movesOf_append, movesOf_own]
    · have hno : ∀ m, a ≠ .cycle i m := fun m e => hown ⟨m, e⟩
      refine ih (hw.step _ h1) (hd.other hno h1) ?_ hrest
      rw [movesOf_append, movesOf_other hno, List.append_nil]
      exact h.other hw.sound h1 hno

end World

end Nodecast
