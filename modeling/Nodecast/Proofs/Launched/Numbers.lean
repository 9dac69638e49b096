import Nodecast.Proofs.Arguments
import Nodecast.Proofs.Launched.Steps

/-!
# The numbers of a configuration at work

A channel holds a limited number of items and at least one, time between reports must not be zero,
and a queue needs a worker. Which accepted settings keep to this throughout a run.
-/

namespace Nodecast

/-! ## Channels -/

namespace Hub

variable {α : Type}

/-- No channel holds more than an eighth of all that can be counted. -/
def maxCapacity : Nat := 2 ^ 61 - 1

/-- The stream that the node would have if it were registered now. -/
def newStream? (h : Hub α) (node : String) : Option (Stream α) :=
  (h.register node).2.streams.get? (h.register node).1

/-- A stream that is registered now is as large as a channel may be. -/
def HasRoom (h : Hub α) : Prop :=
  ∀ node, ∃ s, h.newStream? node = some s ∧ 1 ≤ s.capacity ∧ s.capacity ≤ maxCapacity

theorem newStream?_eq (h : Hub α) (node : String) : h.newStream? node =
    some { node, capacity := max h.config.queueCapacity 1, connectedAt := h.clock } :=
  Table.get?_insert_self _ _ _

theorem hasRoom_iff (h : Hub α) : h.HasRoom ↔ h.config.queueCapacity ≤ maxCapacity := by
  constructor
  · intro hroom
    obtain ⟨s, hs, -, hle⟩ := hroom ""
    rw [newStream?_eq, Option.some.injEq] at hs
    rw [← hs] at hle
    exact Nat.le_trans (Nat.le_max_left _ _) hle
  · intro hle node
    exact ⟨_, h.newStream?_eq node, Nat.le_max_right _ _, Nat.max_le.2 ⟨hle, by decide⟩⟩

theorem Config.queueCapacity_pos {c : Config} (h : c.validate = .ok ()) : 1 ≤ c.queueCapacity := by
  unfold validate at h
  split at h
  · cases h
  · next hne => exact Nat.one_le_iff_ne_zero.2 hne

end Hub

/-! ## Launches -/

/-- How a daemon with these settings is launched. -/
def Settings.launch (s : Settings) (bound : Bool) : Simulation.Launch :=
  { workers := s.workers, interval := 1000 * s.metricsIntervalSecs, bound }

namespace Simulation.SiteRun

variable {s : Settings} {bound : Bool} {r : SiteRun}

/-- The site of a run that has no tasks yet. -/
def prepared (s : Settings) : SiteRun :=
  { state := { daemon := s.daemon, runs := (∅ : Table Nat (Option Ending)).insert 0 none } }

/-- All tasks of a daemon with these settings, before the first takes a step. -/
def launched (s : Settings) (bound : Bool) : SiteRun :=
  (prepared s).spawnAll ((s.launch bound).jobs s.daemon 0)

theorem state_launched (s : Settings) (bound : Bool) :
    (launched s bound).state = (prepared s).state := Schedule.state_spawnAll _ _

theorem settle_empty (site : Site) : settle { state := site } = { state := site } := by
  have hline : Schedule.lineUp Job.behavior { state := site } = { state := site } := by
    simp [Schedule.lineUp, Schedule.latecomers, EmptyCollection.emptyCollection, Table.empty]
  unfold settle Schedule.settle
  rw [hline]
  rfl

theorem leads_session (s : Settings) (bound : Bool) (wait : Nat) :
    (launched s bound).Leads
      ((Session.launchSupervised { run := { state := { daemon := s.daemon } } }
        (s.launch bound)).advance wait).run := by
  have hchange : ∀ f : Site → Site,
      SiteRun.change { state := { daemon := s.daemon } } f =
        { state := f { daemon := s.daemon } } :=
    fun f => settle_empty _
  have hrun : (Session.launchSupervised { run := { state := { daemon := s.daemon } } }
      (s.launch bound)).run = settle (launched s bound) := by
    unfold Session.launchSupervised Session.launch Session.change
    dsimp only
    rw [hchange]
    rfl
  unfold Session.advance
  dsimp only
  rw [hrun]
  exact (leads_settle (launched s bound)).trans (leads_advance (settle (launched s bound)) wait)

theorem suits_jobs {l : Launch} {d : Daemon} {token : Nat} {j : Job} (hj : j ∈ l.jobs d token) :
    j.Suits l := by
  unfold Launch.jobs at hj
  rcases List.mem_append.1 hj with hj | hj
  · rcases List.mem_append.1 hj with hj | hj
    · obtain ⟨kind, -, hj⟩ := List.mem_flatMap.1 hj
      rcases List.mem_cons.1 hj with rfl | hj
      · trivial
      · rw [List.mem_singleton.1 hj]
        rfl
    · obtain ⟨kind, -, rfl⟩ := List.mem_map.1 hj
      trivial
  · rcases List.mem_cons.1 hj with rfl | hj
    · trivial
    · rw [List.mem_singleton.1 hj]
      rfl

theorem manned_daemon (s : Settings) (n : Nat) :
    Site.Manned { daemon := s.daemon } s.hubConfig n := by
  have hfold : ∀ (kinds : List Kind) (d : Daemon),
      Site.Manned { daemon := d } s.hubConfig n →
      Site.Manned { daemon := kinds.foldl (fun d kind => d.enable kind s.backoff) d }
        s.hubConfig n := by
    intro kinds
    induction kinds with
    | nil => exact fun _ h => h
    | cons kind rest ih =>
      refine fun d h => ih (d.enable kind s.backoff) ⟨h.config, ?_⟩
      intro k q hq
      change (d.router.queues.insert kind { kind, backoff := s.backoff }).get? k = some q at hq
      rw [Table.get?_insert] at hq
      split at hq
      · cases hq
        intro id r hr
        cases hr
      · exact h.queues k q hq
  refine hfold s.enabled _ ⟨rfl, fun kind q hq => ?_⟩
  cases hq

theorem sane_launched (s : Settings) (bound : Bool) :
    (launched s bound).Sane (s.launch bound) s.hubConfig := by
  refine ⟨fun i j hj => ?_, ?_, ?_⟩
  · rcases Schedule.task_spawnAll hj with hj | hj
    · exact suits_jobs hj
    · cases hj
  · rw [state_launched]
    obtain ⟨hconfig, hqueues⟩ := manned_daemon s (max (s.launch bound).workers 1)
    exact ⟨hconfig, hqueues⟩
  · intro _ token message hr
    rw [state_launched] at hr
    change ((∅ : Table Nat (Option Ending)).insert 0 none).get? token = _ at hr
    rw [Table.get?_insert] at hr
    split at hr
    · cases hr
    · cases hr

theorem leads_panic (hzero : s.metricsIntervalSecs = 0) (bound : Bool) :
    ∃ r, (launched s bound).Leads r ∧
      r.state.runs.get? 0 = some (some (.panicked Metrics.zeroInterval)) := by
  have hlast : ∃ js, (s.launch bound).jobs s.daemon 0 = js ++ [.reporter 0 0 .past] := by
    have hinterval : (s.launch bound).interval = 0 := by
      rw [Settings.launch, hzero]
    refine ⟨s.daemon.collectors.keys.flatMap (fun kind =>
      [.join { kind, token := 0 }, .runner kind { workers := s.workers, token := 0 }]) ++
      (Launch.watched s.daemon).map (fun kind => .watch { kind, token := 0 }) ++
      [.listener 0 bound], ?_⟩
    rw [Launch.jobs, hinterval, List.append_assoc _ [Job.listener 0 bound]]
    rfl
  obtain ⟨js, hjs⟩ := hlast
  obtain ⟨i, hi⟩ := Schedule.exists_task_spawnAll (prepared s) js (.reporter 0 0 .past)
  rw [← hjs] at hi
  refine ⟨_, .single (.turn (s := launched s bound) i _ hi ?_), ?_⟩
  · rw [state_launched]
    rfl
  · rw [state_after, state_launched]
    rfl

/-! ## Accepted settings -/

/-- Of what is accepted, a capacity that is too large for a channel and a report without time to the
next are all that makes a task panic, in whatever order tasks take their steps, and the order of the
clock is one. Every stream is as large as the settings say, and every queue has as many workers as
they say, and at least one. -/
theorem usable_iff {args : List String} (hparse : Cli.parse args = .ok s)
    (hvalid : s.hubConfig.validate = .ok ()) (bound : Bool) :
    ((∀ r, (launched s bound).Leads r → r.state.daemon.hub.HasRoom) ↔
      s.queueCapacity ≤ Hub.maxCapacity) ∧
    ((∀ r, (launched s bound).Leads r → r.state.NoPanic) ↔ s.metricsIntervalSecs ≠ 0) ∧
    (∀ wait, (launched s bound).Leads
      ((Session.launchSupervised { run := { state := { daemon := s.daemon } } }
        (s.launch bound)).advance wait).run) ∧
    ∀ r, (launched s bound).Leads r →
      (∀ node, ∃ st, r.state.daemon.hub.newStream? node = some st ∧
        st.capacity = s.queueCapacity ∧ 1 ≤ st.capacity) ∧
      ∀ kind q id run, r.state.queue? kind = some q → q.runs.get? id = some run →
        run.workers = s.workers ∧ 1 ≤ run.workers := by
  have hsane : ∀ r, (launched s bound).Leads r → r.Sane (s.launch bound) s.hubConfig :=
    fun r => (sane_launched s bound).leads
  refine ⟨⟨fun h => ?_, fun h r hr => ?_⟩, ⟨fun h hzero => ?_, fun h r hr => ?_⟩,
    leads_session s bound, fun r hr => ⟨?_, ?_⟩⟩
  · have hroom := (Hub.hasRoom_iff _).1 (h _ .refl)
    rw [(hsane _ .refl).site.config] at hroom
    exact hroom
  · rw [Hub.hasRoom_iff, (hsane r hr).site.config]
    exact h
  · obtain ⟨r, hr, hpanic⟩ := leads_panic hzero bound
    exact h r hr 0 _ hpanic
  · exact (hsane r hr).noPanic (Nat.mul_ne_zero (by decide) h)
  · intro node
    have hpos := Hub.Config.queueCapacity_pos hvalid
    have hcapacity : max r.state.daemon.hub.config.queueCapacity 1 = s.queueCapacity := by
      rw [(hsane r hr).site.config]
      exact Nat.max_eq_left hpos
    exact ⟨_, Hub.newStream?_eq _ node, hcapacity, Nat.le_max_right _ _⟩
  · intro kind q id run hq hrun
    have hpos := (Cli.inRange_parse hparse).workers.1
    have hworkers : run.workers = max s.workers 1 := (hsane r hr).site.queues kind q hq id run hrun
    rw [Nat.max_eq_left hpos] at hworkers
    exact ⟨hworkers, hworkers ▸ hpos⟩

/-- Without options all is well. -/
theorem usable_iff_defaults :
    ∃ s, Cli.parse ["run"] = .ok s ∧ s.hubConfig.validate = .ok () ∧
      ∀ r, (launched s true).Leads r → r.state.daemon.hub.HasRoom ∧ r.state.NoPanic := by
  have hargs : ∃ s, Cli.parse ["run"] = .ok s ∧ s.hubConfig.validate = .ok () ∧
      s.queueCapacity ≤ Hub.maxCapacity ∧ s.metricsIntervalSecs ≠ 0 :=
    ⟨_, rfl, rfl, by decide, by decide⟩
  obtain ⟨s, hparse, hvalid, hcapacity, hinterval⟩ := hargs
  obtain ⟨hroom, hpanic, -⟩ := usable_iff hparse hvalid true
  exact ⟨s, hparse, hvalid, fun r hr => ⟨hroom.2 hcapacity r hr, hpanic.2 hinterval r hr⟩⟩

/-- Settings that are accepted, with which the first report panics, and others that are accepted,
with which no stream can be made. -/
theorem not_usable_extremes :
    (∃ s, Cli.parse ["run", "--metrics-interval-secs", "0"] = .ok s ∧
      s.hubConfig.validate = .ok () ∧ ∃ r, (launched s true).Leads r ∧
        r.state.runs.get? 0 = some (some (.panicked Metrics.zeroInterval))) ∧
    ∃ s, Cli.parse ["run", "--subscriber-queue-size", "18446744073709551615"] = .ok s ∧
      s.hubConfig.validate = .ok () ∧ ¬(launched s true).state.daemon.hub.HasRoom := by
  have hinterval : ∃ s, Cli.parse ["run", "--metrics-interval-secs", "0"] = .ok s ∧
      s.hubConfig.validate = .ok () ∧ s.metricsIntervalSecs = 0 :=
    ⟨_, rfl, rfl, rfl⟩
  have hcapacity : ∃ s, Cli.parse ["run", "--subscriber-queue-size", "18446744073709551615"] =
      .ok s ∧ s.hubConfig.validate = .ok () ∧ ¬s.queueCapacity ≤ Hub.maxCapacity :=
    ⟨_, rfl, rfl, by decide⟩
  obtain ⟨s, hparse, hvalid, hzero⟩ := hinterval
  obtain ⟨s', hparse', hvalid', hlarge⟩ := hcapacity
  refine ⟨⟨s, hparse, hvalid, leads_panic hzero true⟩, s', hparse', hvalid', fun h => hlarge ?_⟩
  rw [Hub.hasRoom_iff, (sane_launched s' true).site.config] at h
  exact h

end Simulation.SiteRun

end Nodecast
