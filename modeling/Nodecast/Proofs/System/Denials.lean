import Nodecast.Proofs.Api.Answers
import Nodecast.Proofs.System.Atomic
import Nodecast.Proofs.System.Crews
import Nodecast.Proofs.System.Generated

/-!
# What deletes an object

A cycle tells a node that an object was deleted because the API denies the object, or because the
node does not run it any more. An object that could not be fetched is left as it is, and its key is
tried again.
-/

namespace Nodecast

variable {kind : Kind} {key : Key} {cached prior : Option Entry} {ms : List Cycle.Move}
  {step : Transition} {ds : List Deed} {y : Cycle} {e : Event}

/-! ## Steps that delete -/

theorem pending_transition (kind : Kind) (prior : Option Entry) (object : Tracked)
    (nodes : NodeSet) : ∃ previous changed,
      (Collector.transition kind prior object nodes).pending =
        Nodecast.pending previous nodes changed := by
  cases prior <;> exact ⟨_, _, rfl⟩

theorem nodes_transition (kind : Kind) (prior : Option Entry) (object : Tracked)
    (nodes : NodeSet) : (Collector.transition kind prior object nodes).entry.nodes = nodes := by
  cases prior <;> rfl

theorem not_mem_of_deleted {object : Tracked} {nodes : NodeSet}
    (he : e ∈ (Collector.transition kind prior object nodes).events key)
    (hd : e.change = .deleted) : e.node ∉ nodes := by
  obtain ⟨node, change, hp, rfl⟩ := mem_events.1 he
  obtain ⟨previous, changed, hpending⟩ := pending_transition kind prior object nodes
  rw [hpending, mem_pending] at hp
  rcases changeFor_eq_some hp with ⟨-, hno⟩ | ⟨hnode, -⟩
  · exact absurd hd hno
  · exact hnode

theorem Transition.left_eq_none : step.left = none ↔ step.isEmpty = true := by
  unfold Transition.left
  split <;> simp_all

theorem isEmpty_of_left {object : Tracked} {nodes : NodeSet}
    (hleft : (Collector.transition kind prior object nodes).left = none) :
    nodes.isEmpty = true := by
  rwa [Transition.left_eq_none, Transition.isEmpty, nodes_transition] at hleft

namespace Cycle

/-! ## What a cycle was told before it deletes -/

theorem Aims.of_deleted (h : Aims kind prior ms step) (he : e ∈ step.events key)
    (hd : e.change = .deleted) : .fetch (.ok none) ∈ ms ∨
      ∃ nodes, .resolve (.ok nodes) ∈ ms ∧ e.node ∉ nodes := by
  rcases h with ⟨hms, -⟩ | ⟨object, nodes, hms, rfl⟩
  · exact .inl (hms.subset (by simp))
  · exact .inr ⟨nodes, hms.subset (by simp), not_mem_of_deleted he hd⟩

theorem Aims.of_left (h : Aims kind prior ms step) (hleft : step.left = none) :
    .fetch (.ok none) ∈ ms ∨ ∃ nodes, .resolve (.ok nodes) ∈ ms ∧ nodes.isEmpty = true := by
  rcases h with ⟨hms, -⟩ | ⟨object, nodes, hms, rfl⟩
  · exact .inl (hms.subset (by simp))
  · exact .inr ⟨nodes, hms.subset (by simp), isEmpty_of_left hleft⟩

theorem Aims.fetched (h : Aims kind prior ms step) : ∃ object, .fetch (.ok object) ∈ ms := by
  rcases h with ⟨hms, -⟩ | ⟨object, nodes, hms, -⟩
  · exact ⟨none, hms.subset (by simp)⟩
  · exact ⟨some object, hms.subset (by simp)⟩

theorem commit_not_mem (pushed : List (Event × Option Nat)) :
    .commit prior step ∉ pushed.flatMap Deed.pushes := by
  rw [List.mem_flatMap]
  rintro ⟨⟨e, _ | g⟩, -, hd⟩ <;> simp [Deed.pushes] at hd

theorem Accounts.done (h : y.Accounts kind cached ms ds) :
    (y.generated = [] ∧ (ds = [] ∨ ds = [.pass] ∧ .fetch (.ok none) ∈ ms)) ∨
      ∃ (prior : Option Entry) (step : Transition) (rest : List Deed), Aims kind prior ms step ∧
        y.generated = step.events y.key ∧ ds = .commit prior step :: rest ∧
        ∀ prior' step', .commit prior' step' ∉ rest := by
  unfold Accounts at h
  unfold generated
  cases hs : y.stage with
  | pushing events rest =>
    rw [hs] at h
    obtain ⟨prior, step, pushed, haims, hevents, -, rfl⟩ := h
    exact .inr ⟨prior, step, _, haims, hevents, rfl, fun _ _ => commit_not_mem pushed⟩
  | offering events g e rest =>
    rw [hs] at h
    obtain ⟨prior, step, pushed, haims, hevents, -, rfl⟩ := h
    refine .inr ⟨prior, step, _, haims, hevents, rfl, fun _ _ hd => ?_⟩
    exact (List.mem_append.1 hd).elim (commit_not_mem pushed) (by simp)
  | ended outcome =>
    cases outcome with
    | error e =>
      rw [hs] at h
      exact .inl ⟨rfl, .inl h⟩
    | ok events =>
      rw [hs] at h
      rcases h with ⟨hevents, hms, hds⟩ | ⟨prior, step, pushed, haims, hevents, -, rfl⟩
      · exact .inl ⟨hevents, .inr ⟨hds, hms ▸ by simp⟩⟩
      · exact .inr ⟨prior, step, _, haims, hevents, rfl, fun _ _ => commit_not_mem pushed⟩
  | locking | fetching | resolving | committing =>
    rw [hs] at h
    exact .inl ⟨rfl, .inl h.2⟩

theorem Accounts.idle (h : y.Accounts kind cached ms ds)
    (hno : ∀ object, .fetch (.ok object) ∉ ms) : ds = [] ∧ y.generated = [] := by
  rcases h.done with ⟨hnone, hds | ⟨-, hpass⟩⟩ | ⟨prior, step, rest, haims, -⟩
  · exact ⟨hds, hnone⟩
  · exact absurd hpass (hno none)
  · obtain ⟨object, hobject⟩ := haims.fetched
    exact absurd hobject (hno object)

theorem Accounts.of_deleted (h : y.Accounts kind cached ms ds) (he : e ∈ y.generated)
    (hd : e.change = .deleted) : .fetch (.ok none) ∈ ms ∨
      ∃ nodes, .resolve (.ok nodes) ∈ ms ∧ e.node ∉ nodes := by
  rcases h.done with ⟨hnone, -⟩ | ⟨prior, step, rest, haims, hevents, -⟩
  · rw [hnone] at he
    contradiction
  · exact haims.of_deleted (hevents ▸ he) hd

theorem Accounts.of_commit (h : y.Accounts kind cached ms ds) (hd : .commit prior step ∈ ds) :
    Aims kind prior ms step ∧ y.generated = step.events y.key := by
  rcases h.done with ⟨-, rfl | ⟨rfl, -⟩⟩ | ⟨prior', step', rest, haims, hevents, rfl, hrest⟩
  · contradiction
  · simp at hd
  · cases (List.mem_cons.1 hd).resolve_right (hrest prior step)
    exact ⟨haims, hevents⟩

end Cycle

namespace World

variable {w w0 w' : World} {as : List Action}

/-! ## One cycle in a run -/

theorem Reachable.follows (h : Reachable w) (hbegin : w.step (.reconcile kind key) = some w0)
    (hrun : w0.run as = some w') : ∃ ds, Did w0 w.nextTask kind key as ds w' ∧
      w'.Follows w.nextTask kind key (movesOf w.nextTask as) ds := by
  obtain ⟨c, -, rfl⟩ := Option.map_eq_some_iff.1 hbegin
  exact follows_beginCycle.run (h.step _ hbegin) .start hrun

/-- Task `i` is a cycle that has failed without doing anything on the way from `w0` to `w`. -/
def Failed (w0 : World) (i : Nat) (kind : Kind) (key : Key) (as : List Action) (e : CycleError)
    (w : World) : Prop :=
  Did w0 i kind key as [] w ∧ ∃ t y, w.tasks.get? i = some t ∧ t.activity = .cycle y ∧
    y.outcome? = some (.error e)

theorem Reachable.fails (h : Reachable w) (hbegin : w.step (.reconcile kind key) = some w0)
    (hrun : w0.run as = some w') {t : Task} {c : Collector}
    (ht : w'.tasks.get? w.nextTask = some t) (ha : t.activity = .cycle y)
    (hc : w'.collectors.get? t.kind = some c) (hs : y.stage = .fetching) (e : CycleError)
    (hno : ∀ object, .fetch (.ok object) ∉ movesOf w.nextTask as) :
    ∃ w'', w'.step (.cycle w.nextTask (.fetch (.error e))) = some w'' ∧
      Failed w0 w.nextTask kind key (as ++ [.cycle w.nextTask (.fetch (.error e))]) e w'' := by
  have hm : c.moveCycle w'.hub y (.fetch (.error e)) =
      some ((c.abortCycle y e).1, (c.abortCycle y e).2, w'.hub) := by
    simp [Collector.moveCycle, Collector.moveUnheard, hs, Collector.fetched]
  obtain ⟨commit, made, hstep⟩ := exists_step_cycle ht hc ha hm
  obtain ⟨ds, hdid, _, _, _, -, -, -, -, -, haccounts, -⟩ :=
    h.follows hbegin (run_concat hrun hstep)
  obtain ⟨rfl, -⟩ := haccounts.idle fun object ho => by
    rw [movesOf_append, movesOf_own, List.mem_append] at ho
    exact ho.elim (hno object) (by simp)
  refine ⟨_, hstep, hdid, { t with activity := .cycle (c.abortCycle y e).1, commit }, _, ?_, rfl,
    rfl⟩
  rw [get?_tasks_advance, if_pos rfl]

end World

/-! ## Whatever the API answers -/

namespace Crew

variable {s s0 s' : Crew} {run : Nat} {as : List Action}

theorem Reachable.fails (h : Reachable s) (hkind : s.kind = kind)
    (hbegin : s.step (.begin ⟨run, key⟩) = some s0) (hrun : s0.run as = some s') {t : Task}
    {c : Collector} (ht : s'.world.tasks.get? s.world.nextTask = some t)
    (ha : t.activity = .cycle y) (hc : s'.world.collectors.get? t.kind = some c)
    (hs : y.stage = .fetching) (e : CycleError) (he : e.isRetryable = true)
    (hno : ∀ object,
      .fetch (.ok object) ∉ World.movesOf s.world.nextTask (worldActions kind as)) :
    ∃ s'', s'.step (.world (.cycle s.world.nextTask (.fetch (.error e)))) = some s'' ∧
      World.Failed s0.world s.world.nextTask kind key
        (worldActions kind as ++ [.cycle s.world.nextTask (.fetch (.error e))]) e s''.world ∧
      s''.Retries s.world.nextTask key := by
  subst hkind
  have v := h.valid
  have v0 := v.step hbegin
  cases does_of_step hbegin with
  | begin call hlt hw =>
    obtain ⟨w', hstep, hfailed⟩ := v.world.fails hw (run_world hrun) ht ha hc hs e hno
    have ⟨_, t', y', ht', ha', ho'⟩ := hfailed
    have hopen : s'.world.outcome? s.world.nextTask = none := by
      rw [World.outcome?_of_cycle ht ha, Cycle.outcome?, hs]
    have hcall := calls_run v0 (Table.get?_insert_self _ _ _) hrun (finish_not_mem v0 hrun hopen)
    have hstep' : s'.step (.world (.cycle s.world.nextTask (.fetch (.error e)))) =
        some { s' with world := w' } := Option.map_eq_some_iff.2 ⟨w', hstep, rfl⟩
    refine ⟨_, hstep', hfailed, ((v0.run hrun).step hstep').retries hcall ?_ he⟩
    exact (World.outcome?_of_cycle ht' ha').trans ho'

/-- Whatever the API answers, a cycle hears of no object only if a refusal names `NotFound`, and
what is neither that nor an object of the kind is a failure to fetch it. A cycle that fails so does
nothing, and when its call ends the queue is to try its key again. So a node is told that an object
was deleted only after the API has denied the object, or because the node does not run it, and all
nodes are told so only after the API has denied it, or because no node runs it. -/
theorem deleted_only_if_denied {client : Api.Client} (D : client.Documented) (kind : Kind)
    (key : Key) (response : Option Api.Response) :
    (client.fetch kind key response = .ok none ↔
      client.sends (Api.objectPath kind key) = true ∧
        ∃ r, response = some r ∧ client.Denies r) ∧
    (∀ r, client.Denies r → 400 ≤ r.status) ∧
    ((∀ r, response = some r → ¬client.Denies r ∧ ∀ object, ¬client.Shows kind r object) →
      client.fetch kind key response = .error (.fetch kind key)) ∧
    ∀ s s0 s' run as, Reachable s → s.kind = kind → s.step (.begin ⟨run, key⟩) = some s0 →
      s0.run as = some s' →
      (∀ answer, .fetch answer ∈ World.movesOf s.world.nextTask (worldActions kind as) →
        answer = client.fetch kind key response) →
      ∃ t y ds, s'.world.tasks.get? s.world.nextTask = some t ∧ t.kind = kind ∧
        t.activity = .cycle y ∧ y.key = key ∧ World.Does s.world kind key [] s0.world ∧
        World.Did s0.world s.world.nextTask kind key (worldActions kind as) ds s'.world ∧
        (client.fetch kind key response = .error (.fetch kind key) → ds = [] ∧ y.generated = [] ∧
          (y.stage = .fetching → ∃ s'', s'.step (.world
              (.cycle s.world.nextTask (.fetch (client.fetch kind key response)))) = some s'' ∧
            World.Failed s0.world s.world.nextTask kind key (worldActions kind as ++
              [.cycle s.world.nextTask (.fetch (client.fetch kind key response))])
              (.fetch kind key) s''.world ∧
            s''.Retries s.world.nextTask key)) ∧
        (∀ e ∈ y.generated, e.change = .deleted → (∃ r, response = some r ∧ client.Denies r) ∨
          ∃ nodes, .resolve (.ok nodes) ∈
            World.movesOf s.world.nextTask (worldActions kind as) ∧ e.node ∉ nodes) ∧
        ∀ prior step, .commit prior step ∈ ds → y.generated = step.events key ∧
          (step.left = none → (∃ r, response = some r ∧ client.Denies r) ∨
            ∃ nodes, .resolve (.ok nodes) ∈
              World.movesOf s.world.nextTask (worldActions kind as) ∧
              nodes.isEmpty = true) := by
  refine ⟨D.fetch_none_iff, fun r hr => D.refusals hr.1, D.fetch_of_neither, ?_⟩
  intro s s0 s' run as h hkind hbegin hrun hheard
  subst hkind
  have htold : .fetch (.ok none) ∈ World.movesOf s.world.nextTask (worldActions s.kind as) →
      ∃ r, response = some r ∧ client.Denies r :=
    fun hm => (D.fetch_none_iff.1 (hheard _ hm).symm).2
  have hbegin' := hbegin
  cases does_of_step hbegin with
  | begin call hlt hw =>
    obtain ⟨c0, hc0, rfl⟩ := Option.map_eq_some_iff.1 hw
    obtain ⟨ds, hdid, t, y, c, ht, htkind, ha, hkey, hc, haccounts, -⟩ :=
      h.valid.world.follows hw (run_world hrun)
    refine ⟨t, y, ds, ht, htkind, ha, hkey, World.does_beginCycle hc0, hdid, fun hfailed => ?_,
      fun e he hd => (haccounts.of_deleted he hd).imp_left htold, fun prior step hd => ?_⟩
    · have hno : ∀ object, .fetch (.ok object) ∉
          World.movesOf s.world.nextTask (worldActions s.kind as) := by
        intro object ho
        have hsame := hheard _ ho
        rw [hfailed] at hsame
        contradiction
      obtain ⟨hnone, hsilent⟩ := haccounts.idle hno
      refine ⟨hnone, hsilent, fun hs => ?_⟩
      rw [hfailed]
      exact h.fails rfl hbegin' hrun ht ha (htkind ▸ hc) hs _ rfl hno
    · obtain ⟨haims, hevents⟩ := haccounts.of_commit hd
      exact ⟨hevents.trans (by rw [hkey]), fun hleft => (haims.of_left hleft).imp_left htold⟩

def webCall : Call := ⟨0, Backlog.webKey⟩

/-- A worker handles the key. -/
def handled : List Action :=
  [.queue (.ask Backlog.webKey), .queue (.send Backlog.webKey), .queue (.receive 0),
    .queue .start]

/-- A cycle has told node `a` of an object, and the next call for its key is about to begin. -/
def published : List Action :=
  .queue (.enter 1) :: handled ++ [.begin webCall, .world (.cycle 0 (.lock false)),
    .world (.cycle 0 (.fetch (.ok (some { metadata := { uid := some "u1" } })))),
    .world (.cycle 0 (.resolve (.ok (.ofList ["a"])))), .world (.cycle 0 (.commit false)),
    .world (.cycle 0 .push), .world (.cycle 0 .finish), .finish 0] ++ handled

def outage : Api.Response := ⟨503, "busy"⟩

def denial : Api.Response :=
  ⟨404, "\x7b\"status\":\"Failure\",\"reason\":\"NotFound\",\"code\":404\x7d"⟩

theorem outage_is_neither {r : Api.Response} (hr : some outage = some r) :
    ¬Api.Client.json.Denies r ∧ ∀ object, ¬Api.Client.json.Shows .deployment r object := by
  cases hr
  have hbody : Api.Client.json.failure? outage.body = none := by
    have hparse : Json.parse? outage.body = none := by decide +kernel
    show Json.parse? outage.body >>= _ = none
    rw [hparse]
    rfl
  refine ⟨fun ⟨_, f, hf, _⟩ => ?_, fun object h => absurd h.1 (by decide)⟩
  rw [hbody] at hf
  contradiction

theorem denial_denies : Api.Client.json.Denies denial := by
  refine ⟨rfl, ⟨"Failure", "", "NotFound", 404⟩, ?_, rfl⟩
  decide +kernel

theorem webKey_isSendable :
    Api.isSendable (Api.objectPath .deployment Backlog.webKey) = true := by
  have hslash : Kind.deployment.apiVersion.contains '/' = true := by
    rw [String.contains_char_eq]
    decide +kernel
  have hroot : Api.root .deployment = "/apis/apps/v1" := by
    rw [Api.root, hslash]
    decide +kernel
  rw [Api.objectPath, hroot]
  decide +kernel

theorem published_runs : ∃ s s0 s1 t1 y1 v t y e,
    (start .deployment Backlog.slow {}).run published = some s ∧ s.kind = .deployment ∧
      s.world.nextTask = 1 ∧ s.step (.begin webCall) = some s0 ∧
      s0.run [.world (.cycle 1 (.lock false))] = some s1 ∧ s1.world.tasks.get? 1 = some t1 ∧
      t1.activity = .cycle y1 ∧ y1.stage = .fetching ∧ s1.backlog.now +
        (Backlog.delayAfter s1.backlog.queue.backoff
          (Backlog.streak Backlog.webKey s1.backlog.log + 1)).total = 1000000000 ∧
      s0.run [.world (.cycle 1 (.lock false)), .world (.cycle 1 (.fetch (.ok none))),
        .world (.cycle 1 (.commit false))] = some v ∧
      v.world.tasks.get? 1 = some t ∧ t.activity = .cycle y ∧ y.generated = [e] ∧ e.node = "a" ∧
      e.change = .deleted :=
  ⟨_, _, _, _, _, _, _, _, _, rfl, rfl, rfl, rfl, rfl, rfl, rfl, rfl, rfl, rfl, rfl, rfl, rfl,
    rfl, rfl⟩

/-- The next cycle fails in an outage, and when its call ends the key is tried again after a second.
After a denial it tells the node of the deletion. -/
theorem deleted_only_if_denied_outage : ∃ s s0 s1 s2 s3 v t y e,
    (start .deployment Backlog.slow {}).run published = some s ∧
      s.step (.begin webCall) = some s0 ∧
      s0.run [.world (.cycle 1 (.lock false))] = some s1 ∧
      s1.step (.world (.cycle 1 (.fetch
        (Api.Client.json.fetch .deployment Backlog.webKey (some outage))))) = some s2 ∧
      s2.world.outcome? 1 = some (.error (.fetch .deployment Backlog.webKey)) ∧
      s2.step (.finish 1) = some s3 ∧ s3.world = s2.world ∧
      s3.Schedules ⟨Backlog.webKey, 1000000000⟩ ∧
      s0.run [.world (.cycle 1 (.lock false)), .world (.cycle 1 (.fetch
          (Api.Client.json.fetch .deployment Backlog.webKey (some denial)))),
        .world (.cycle 1 (.commit false))] = some v ∧
      v.world.tasks.get? 1 = some t ∧ t.activity = .cycle y ∧ y.generated = [e] ∧ e.node = "a" ∧
      e.change = .deleted ∧ ∃ r, some denial = some r ∧ Api.Client.json.Denies r := by
  obtain ⟨s, s0, s1, t1, y1, v, t, y, e, hs, hkind, hnext, hbegin, hlock, ht1, ha1, hs1, hdue,
    hcommit, ht, ha, hevents, hnode, hchange⟩ := published_runs
  have hreach : Reachable s := (Reachable.start ..).run hs
  -- The outage is a failure, and the cycle that waits for its object fails with it.
  obtain ⟨-, -, hneither, hcycle⟩ :=
    deleted_only_if_denied Api.Client.documented_json .deployment Backlog.webKey (some outage)
  have hfetch := hneither fun r hr => outage_is_neither hr
  obtain ⟨t1', y1', _, ht1', -, ha1', -, -, -, hfails, -⟩ :=
    hcycle s s0 s1 0 _ hreach hkind hbegin hlock
      (by simp [worldActions, Action.world?, World.movesOf])
  rw [hnext] at ht1' hfails
  obtain ⟨-, -, hfails⟩ := hfails hfetch
  obtain ⟨s2, hstep, ⟨-, t2, y2, ht2, ha2, ho2⟩, hretries⟩ :=
    hfails ((World.cycle_unique ht1 ha1 ht1' ha1').2 ▸ hs1)
  obtain ⟨s3, hfinish, hsame, hschedules⟩ := hretries [] s2 rfl List.not_mem_nil
  have hbacklog : s2.backlog = s1.backlog := by
    obtain ⟨_, -, rfl⟩ := Option.map_eq_some_iff.1 hstep
    rfl
  rw [hbacklog, hdue] at hschedules
  -- The denial is heard as such.
  obtain ⟨hnone, -, -, hcycle⟩ :=
    deleted_only_if_denied Api.Client.documented_json .deployment Backlog.webKey (some denial)
  have hgone := hnone.2 ⟨webKey_isSendable, denial, rfl, denial_denies⟩
  rw [← hgone] at hcommit
  obtain ⟨t', y', _, ht', -, ha', -, -, -, -, hdeleted, -⟩ :=
    hcycle s s0 v 0 _ hreach hkind hbegin hcommit
      (by simp [hnext, worldActions, Action.world?, World.movesOf])
  rw [hnext] at ht' hdeleted
  rw [(World.cycle_unique ht ha ht' ha').2, hevents] at hdeleted
  refine ⟨s, s0, s1, s2, s3, v, t, y, e, hs, hbegin, hlock, hstep,
    (World.outcome?_of_cycle ht2 ha2).trans ho2, hfinish, hsame, hschedules, hcommit, ht, ha,
    hevents, hnode, hchange, ?_⟩
  rcases hdeleted e (by simp) hchange with hdenied | ⟨nodes, hnodes, -⟩
  · exact hdenied
  · simp [worldActions, Action.world?, World.movesOf] at hnodes

end Crew

end Nodecast
