import Nodecast.Proofs.System.Progress

/-!
# When nothing is left to do

Once no key waits, no cycle is under way and every notice is delivered, the cache holds exactly the
objects that there are, except for those whose end was overlooked at a restart.
-/

namespace Nodecast

namespace Watched

variable {w w' : Watched} {i n commit : Nat} {y y' : Cycle} {c c' : Collector}
  {hub hub' : Hub Event} {key k : Key} {m : Cycle.Move} {fails : Bool}

/-! ## Moves of a cycle -/

/-- The API answers with what there is. The cycle is going to leave that in the cache, or there is
nothing to do. -/
theorem Goes.fair_of_fetched
    (g : Goes w w' i y (c.fetched y (.ok (w.api.get? y.key))).1 c
      (c.fetched y (.ok (w.api.get? y.key))).2)
    (S : w.toWorld.Sound) (hneeded : ∀ key o, (w.nodes key o).isEmpty = false)
    (hs : y.stage = .fetching) (hh : c.locks.Holds y.ticket y.key) (hf : w.Fair y.key) :
    w'.Fair y.key := by
  have hahead : y.isAhead = true := by simp [Cycle.isAhead, hs]
  have hx : y.ticket? = some y.ticket := by simp [Cycle.ticket?, hs]
  cases hobject : w.api.get? y.key with
  | none =>
    rw [hobject] at g
    have hwanted : w.wanted y.key = none := by
      rw [Watched.wanted, hobject]
      rfl
    cases hcached : c.cache.get? y.key with
    | none =>
      simp only [Collector.fetched, hcached] at g
      refine g.fair_of_clear S hf hahead hx hh rfl ?_
      rw [hwanted]
      exact hcached
    | some e =>
      simp only [Collector.fetched, hcached] at g
      refine g.fair_of_sees hf hahead ?_
      rw [hwanted]
      exact congrArg some (left_retire e)
  | some o =>
    rw [hobject] at g
    simp only [Collector.fetched] at g
    refine g.fair_of_sees hf hahead (congrArg some ?_)
    have hprior : ∀ e, c.cache.get? y.key = some e → e.kind = w.kind :=
      fun e he => S.entries g.collector he
    rw [left_transition hprior (hneeded _ _), Watched.wanted, hobject]
    rfl

theorem Goes.fair_of_step (g : Goes w w' i y y' c c') (S : w.toWorld.Sound)
    (hneeded : ∀ key o, (w.nodes key o).isEmpty = false)
    (h : c.CycleStep hub y m y' c' hub') (hm : w.move? y fails = some m)
    (hy : y.Sound c hub n commit) (hf : w.Fair y.key) : w'.Fair y.key := by
  have hkind : c.kind = w.kind := S.kinds g.collector
  cases h with
  | lock cancelled hs =>
    cases cancelled <;> cases fails <;> simp [move?, hs] at hm
    refine hf.same (g.same_of_stays ?_ ?_ rfl ?_)
    · simp [Cycle.isAhead, hs, Collector.locked]
    · simp [Cycle.brings?, hs, Collector.locked]
    · simp [Cycle.HasFailed, Cycle.outcome?, Collector.locked]
  | fetch answer hs =>
    simp only [Cycle.Sound, hs] at hy
    cases fails <;> simp only [move?, hs, Option.some.injEq, Cycle.Move.fetch.injEq] at hm <;>
      subst hm
    · exact g.fair_of_fetched S hneeded hs hy hf
    · exact g.fair_of_fails hf (by simp [Cycle.isAhead, hs]) ⟨_, rfl, rfl⟩
  | resolve object prior answer hs =>
    cases fails <;> simp only [move?, hs, Option.some.injEq, Cycle.Move.resolve.injEq,
      reduceCtorEq] at hm
    subst hm
    refine hf.same (g.same_of_stays ?_ ?_ rfl ?_)
    · simp [Cycle.isAhead, hs, Collector.resolved]
    · simp [Cycle.brings?, hs, Collector.resolved, hkind]
    · simp [Cycle.HasFailed, Cycle.outcome?, Collector.resolved]
  | cancel hs =>
    obtain hs | ⟨object, prior, hs⟩ := hs <;> cases fails <;> simp [move?, hs] at hm
  | commit hadPrior t cancelled hs =>
    simp only [Cycle.Sound, hs] at hy
    obtain ⟨hh, hhad, -⟩ := hy
    cases cancelled <;> cases fails <;> simp [move?, hs] at hm
    refine g.fair_of_commits S hf (v := t.left) ?_ ?_ ?_ hh ?_ ?_ ?_ ?_
    · simp [Cycle.brings?, hs]
    · simp [Cycle.isAhead, hs]
    · simp [Cycle.ticket?, hs]
    · simp [Cycle.isAhead, Collector.commit]
    · simp [Cycle.brings?, Collector.commit]
    · simp [Cycle.HasFailed, Cycle.outcome?, Collector.commit]
    · show (c.cache.commit y.key hadPrior t).2.get? y.key = _
      rw [get?_commit hhad, if_pos rfl]
  | miss _ _ _ hs | find _ _ _ _ _ hs | offer _ _ _ _ hs =>
    refine hf.same (g.same_of_stays ?_ ?_ rfl ?_)
    · simp [Cycle.isAhead, hs]
    · simp [Cycle.brings?, hs]
    · simp [Cycle.HasFailed, Cycle.outcome?]
  | finish events hs =>
    refine hf.same (g.same_of_stays ?_ ?_ rfl ?_)
    · simp [Cycle.isAhead, hs, Collector.endCycle]
    · simp [Cycle.brings?, hs, Collector.endCycle]
    · simp [Cycle.HasFailed, Cycle.outcome?, Collector.endCycle]

/-! ## Every step -/

theorem heed_eq (h : w.router.Serves w.kind) (y : Cycle) :
    ∃ router retries, w.heed y = { w with router, retries } ∧ router.Serves w.kind ∧
      (∀ k, router.waits w.kind k = w.router.waits w.kind k) ∧
      ∀ k, k ∈ retries ↔ k ∈ w.retries ∨ (k = y.key ∧ y.HasFailed) := by
  obtain ⟨q, hq, v⟩ := h
  unfold heed
  rw [hq]
  cases ho : y.outcome? with
  | none =>
    refine ⟨w.router, w.retries, rfl, ⟨q, hq, v⟩, fun _ => rfl, fun k => ?_⟩
    simp [Cycle.HasFailed, ho]
  | some outcome =>
    obtain ⟨v', hmarked⟩ := v.finish y.key (outcome.map fun _ => ())
    have hdelay := WorkQueue.finish_delay (q := q) y.key (outcome.map fun _ => ())
    have hfailed : y.HasFailed ↔ (q.finish y.key (outcome.map fun _ => ())).1.isSome = true := by
      rw [hdelay, Cycle.HasFailed, ho]
      cases outcome <;> simp [Except.map]
    generalize hf : q.finish y.key (outcome.map fun _ => ()) = finished at v' hmarked hfailed
    obtain ⟨delay, q'⟩ := finished
    have hq' : (w.withQueue q').router.queues.get? w.kind = some q' := Table.get?_insert_self _ _ _
    refine ⟨(w.withQueue q').router, w.retries ++ (delay.map fun _ => y.key).toList, ?_,
      ⟨q', hq', v'⟩, fun k => ?_, fun k => ?_⟩
    · simp only [hf]
      rfl
    · rw [Bool.eq_iff_iff, Router.waits_iff hq', Router.waits_iff hq, hmarked]
    · rw [hfailed, List.mem_append]
      cases delay <;> simp

theorem Valid.go (V : w.Valid) (h : w.step (.go i fails) = some w') : w'.Valid := by
  obtain ⟨y, hi, h⟩ := Option.bind_eq_some_iff.1 h
  obtain ⟨m, hm, h⟩ := Option.bind_eq_some_iff.1 h
  obtain ⟨w1, h1, h⟩ := Option.bind_eq_some_iff.1 h
  obtain ⟨v, hv, rfl⟩ := Option.map_eq_some_iff.1 h1
  obtain ⟨t, ht, hkind, ha⟩ := cycle?_eq_some.1 hi
  obtain ⟨t0, ht0, hv⟩ := Option.bind_eq_some_iff.1 hv
  obtain ⟨c, hc, hv⟩ := Option.bind_eq_some_iff.1 hv
  rw [ht, Option.some.injEq] at ht0
  subst ht0
  simp only [ha] at hv
  obtain ⟨t', y', c', hub, made, sent, spent, hstep, ha', rfl, T⟩ :=
    World.cycle_turn V.sound ht ha hc hv
  have hkind' : t'.kind = w.kind := (T.same ht).symm.trans hkind
  have ht' : t'.cycle? w.kind = some y' := Task.cycle?_eq_some.2 ⟨hkind', ha'⟩
  have hnow : (w.after i t' c' hub made w.router w.retries).cycle? i = some y' := by
    rw [cycle?_after, if_pos rfl, ht']
  obtain ⟨y1, hy1, h⟩ := Option.bind_eq_some_iff.1 h
  obtain rfl : y1 = y' := Option.some.inj (hy1.symm.trans hnow)
  obtain ⟨router, retries, he, hserves, hwaits, hretries⟩ :=
    heed_eq (w := w.after i t' c' hub made w.router w.retries) V.serves y1
  obtain rfl : w.after i t' c' hub made router retries = w' := he.symm.trans (Option.some.inj h)
  have g : Goes w (w.after i t' c' hub made router retries) i y y1 c c' := by
    refine ⟨rfl, rfl, rfl, rfl, rfl, hwaits, ?_, hi, ?_, ?_, hstep.key_eq, hkind ▸ hc, ?_,
      fun k hk => hstep.cache_eq hk⟩
    · intro k
      rw [← hstep.key_eq]
      exact hretries k
    · rw [cycle?_after, if_pos rfl, ht']
    · intro j hj
      rw [cycle?_after, if_neg hj]
    · show (w.toWorld.advance i t' c' hub made).collectors.get? w.kind = some c'
      rw [World.get?_collectors_advance, if_pos hkind'.symm]
  obtain ⟨d, hd, hy⟩ := V.sound.tasks ht
  rw [hc, Option.some.injEq] at hd
  subst hd
  simp only [Task.Sound, ha] at hy
  refine V.after T hserves fun k => ?_
  by_cases hk : k = y.key
  · subst hk
    exact g.fair_of_step V.sound V.needed hstep hm hy (V.fair y.key)
  · exact (V.fair k).same (g.same_of_ne hk)

theorem Valid.beside (V : w.Valid) {a : World.Action} (h : w.step (.beside a) = some w') :
    w'.Valid := by
  cases a with
  | reconcile | cycle => contradiction
  | join kind =>
    obtain ⟨v, hv, rfl⟩ := Option.map_eq_some_iff.1 h
    obtain ⟨c, hc, hv⟩ := Option.bind_eq_some_iff.1 hv
    obtain ⟨⟨node, hub⟩, hj, hv⟩ := Option.bind_eq_some_iff.1 hv
    cases hv
    refine V.aside (.of_beginReplay V.sound hc (World.moves_nextJoin V.sound.hub hj) node) ?_ rfl
    rw [cycle?, V.sound.get?_nextTask]
    rfl
  | replay i m =>
    obtain ⟨v, hv, rfl⟩ := Option.map_eq_some_iff.1 h
    obtain ⟨t, ht, hv⟩ := Option.bind_eq_some_iff.1 hv
    obtain ⟨c, hc, hv⟩ := Option.bind_eq_some_iff.1 hv
    split at hv
    · contradiction
    · next r ha =>
      obtain ⟨r', c', hub, commit, sent, spent, -, rfl, T⟩ := World.replay_turn V.sound ht ha hc hv
      refine V.aside T ?_ rfl
      rw [cycle?, ht]
      simp [Task.cycle?, ha]
  | wish wish =>
    cases h
    exact ⟨V.sound.withHub (World.moves_grant V.sound.hub wish), V.serves, V.enabled, V.named,
      V.news, V.needed, fun k => (V.fair k).same
        ⟨rfl, rfl, rfl, rfl, Iff.rfl, Iff.rfl, fun _ => Iff.rfl⟩⟩

theorem Valid.step (V : w.Valid) {a : Action} (h : w.step a = some w') : w'.Valid := by
  cases a with
  | put object =>
    obtain ⟨key, hkey, h⟩ := Option.bind_eq_some_iff.1 h
    cases h
    refine V.announce (n := .applied object) ?_ ?_ hkey
    · intro k o ho
      rw [Table.get?_insert] at ho
      split at ho
      · next e =>
        cases ho
        rwa [e]
      · exact V.named ho
    · exact fun k hk => Table.get?_insert_of_ne _ _ hk
  | remove object =>
    obtain ⟨key, hkey, h⟩ := Option.bind_eq_some_iff.1 h
    split at h
    · cases h
      refine V.announce (n := .deleted object) ?_ ?_ hkey
      · intro k o ho
        rw [Table.get?_erase] at ho
        split at ho
        · contradiction
        · exact V.named ho
      · exact fun k hk => Table.get?_erase_of_ne _ hk
    · contradiction
  | deliver =>
    simp only [Watched.step] at h
    split at h
    · contradiction
    · next n rest hf =>
      cases h
      exact V.deliver hf
  | restart =>
    cases h
    exact V.restart
  | take =>
    obtain ⟨q, hq, h⟩ := Option.bind_eq_some_iff.1 h
    obtain ⟨⟨key, q'⟩, hp, h⟩ := Option.bind_eq_some_iff.1 h
    obtain ⟨v, hv, rfl⟩ := Option.map_eq_some_iff.1 h
    obtain ⟨c, hc, rfl⟩ := Option.map_eq_some_iff.1 hv
    have hfresh : w.cycle? w.nextTask = none := by
      rw [cycle?, V.sound.get?_nextTask]
      rfl
    exact V.take (.of_beginCycle V.sound hc key) hfresh (Task.cycle?_eq_some.2 ⟨rfl, rfl⟩) rfl hq hp
  | go i fails => exact V.go h
  | retry key =>
    simp only [Watched.step] at h
    split at h
    · next hk =>
      cases h
      exact V.retry hk
    · contradiction
  | beside a => exact V.beside h

/-! ## Every run -/

theorem served_start {s : Settings} {kind : Kind} (h : kind ∈ s.enabled) :
    s.daemon.router.Serves kind ∧ ∃ c, s.daemon.collectors.get? kind = some c := by
  have hkeeps : ∀ (kinds : List Kind) (d : Daemon),
      kind ∈ kinds ∨ (d.router.Serves kind ∧ ∃ c, d.collectors.get? kind = some c) →
      (kinds.foldl (fun d k => d.enable k s.backoff) d).router.Serves kind ∧
        ∃ c, (kinds.foldl (fun d k => d.enable k s.backoff) d).collectors.get? kind = some c := by
    intro kinds
    induction kinds with
    | nil => exact fun d hd => hd.resolve_left List.not_mem_nil
    | cons k rest ih =>
      intro d hd
      refine ih _ ?_
      by_cases hk : kind = k
      · subst hk
        exact Or.inr
          ⟨⟨_, Table.get?_insert_self _ _ _, rfl, .nil⟩, _, Table.get?_insert_self _ _ _⟩
      · rcases hd with hd | ⟨⟨q, hq, v⟩, c, hc⟩
        · exact Or.inl ((List.mem_cons.1 hd).resolve_left hk)
        · refine Or.inr ⟨⟨q, ?_, v⟩, c, ?_⟩
          · exact (Table.get?_insert_of_ne _ _ hk).trans hq
          · exact (Table.get?_insert_of_ne _ _ hk).trans hc
  exact hkeeps s.enabled _ (Or.inl h)

theorem valid_start {s : Settings} {kind : Kind} {nodes : Key → Tracked → NodeSet}
    (hk : kind ∈ s.enabled) (hn : ∀ key o, (nodes key o).isEmpty = false) :
    (start s kind nodes).Valid := by
  have S := World.sound_start s
  obtain ⟨hserves, c, hc⟩ := served_start hk
  refine ⟨S, hserves, ⟨c, hc⟩, by intros; contradiction, by intro n hn'; contradiction, hn, ?_⟩
  intro key
  have hcached : (start s kind nodes).cached key = none := by
    rw [cached]
    show (s.daemon.collectors.get? kind).bind _ = _
    rw [hc]
    exact S.cached hc key
  have hnobody : ∀ v, ¬(start s kind nodes).Brings key v := by
    rintro v ⟨i, y, hi, -⟩
    contradiction
  exact ⟨Or.inr (Or.inr (Or.inr ⟨hnobody, hcached⟩)), fun hm => by contradiction⟩

theorem Reachable.valid (h : Reachable w) : w.Valid := by
  induction h with
  | start s hk hn => exact valid_start hk hn
  | step a _ hs ih => exact ih.step hs

/-! ## Rest -/

theorem looks_of_isQuiet (h : w.isQuiet = true) (V : w.Valid) (key : Key) :
    w.looks key = false ∧ ∀ v, ¬w.Brings key v := by
  simp only [isQuiet, Bool.and_eq_true, List.all_eq_true, List.isEmpty_iff] at h
  obtain ⟨⟨⟨hqueue, hcycles⟩, hretries⟩, hfeed⟩ := h
  obtain ⟨q, hq, -⟩ := V.serves
  rw [hq, Option.all_some, WorkQueue.isEmpty, List.isEmpty_iff] at hqueue
  have hended : ∀ {i y}, w.cycle? i = some y → ∃ outcome, y.stage = .ended outcome := by
    intro i y hi
    have hy := hcycles y (mem_cycles.2 ⟨i, hi⟩)
    unfold Cycle.outcome? at hy
    split at hy
    · next outcome hs => exact ⟨outcome, hs⟩
    · contradiction
  constructor
  · rw [← Bool.not_eq_true, looks_iff, hfeed, hretries, Router.waits_iff hq, hqueue]
    rintro (⟨n, hn, -⟩ | hn | hn | ⟨i, y, hi, -, hy⟩)
    · contradiction
    · contradiction
    · contradiction
    · obtain ⟨outcome, hs⟩ := hended hi
      simp [Cycle.isAhead, hs] at hy
  · rintro v ⟨i, y, hi, -, hy⟩
    obtain ⟨outcome, hs⟩ := hended hi
    simp [Cycle.brings?, hs] at hy

/-- At rest the cache holds under every key just what it ought to, unless the end of the object was
overlooked. Then the object is gone and cached all the same. -/
theorem cached_at_rest (h : w.Reachable) (hq : w.isQuiet = true) (key : Key) :
    (w.cached key = w.wanted key ↔ key ∉ w.missed) ∧
      (key ∈ w.missed → w.api.get? key = none ∧ ∃ e, w.cached key = some e) := by
  have V := h.valid
  obtain ⟨hl, hb⟩ := looks_of_isQuiet hq V key
  refine ⟨(V.fair key).cached_iff hl hb, fun hm => ?_⟩
  obtain ⟨hapi, -, ⟨e, he⟩ | ⟨-, hcached⟩⟩ := (V.fair key).stale hm
  · exact absurd he (hb _)
  · exact ⟨hapi, hcached⟩

/-! ## An object that is overlooked -/

def web : Tracked where
  metadata := { name := some "web", space := some "default", uid := some "1" }

/-- A Deployment is deleted after a cycle has seen it. The watch is interrupted before it tells of
that and before the cycle commits. -/
def vanishing : List Action :=
  [.put web, .deliver, .take, .go 0 false, .go 0 false, .remove web, .restart, .go 0 false,
    .go 0 false, .go 0 false, .go 0 false]

/-- All Deployments are needed on one node. -/
def oneNode : Watched := start {} .deployment fun _ _ => .ofList ["a"]

theorem oneNode_reachable : oneNode.Reachable :=
  .start {} (by decide) fun _ _ => by decide

theorem vanishing_run : ∃ w e, oneNode.run vanishing = some w ∧ w.isQuiet = true ∧
    w.api.get? ⟨"default", "web"⟩ = none ∧ w.cached ⟨"default", "web"⟩ = some e :=
  ⟨_, _, rfl, rfl, rfl, rfl⟩

theorem cached_at_rest_vanishing : ∃ w : Watched, w.Reachable ∧ w.isQuiet = true ∧
    (w.cached ⟨"default", "web"⟩ = w.wanted ⟨"default", "web"⟩ ↔
      ⟨"default", "web"⟩ ∉ w.missed) := by
  obtain ⟨w, e, hw, hquiet, -, -⟩ := vanishing_run
  have hr := oneNode_reachable.run hw
  exact ⟨w, hr, hquiet, (cached_at_rest hr hquiet _).1⟩

/-- Nothing is left to do, and still the cache holds an object that is gone. -/
theorem not_cached_vanishing :
    ¬∀ w : Watched, w.Reachable → w.isQuiet = true → ∀ key, w.cached key = w.wanted key := by
  intro h
  obtain ⟨w, e, hw, hquiet, hapi, hcached⟩ := vanishing_run
  have he := h w (oneNode_reachable.run hw) hquiet ⟨"default", "web"⟩
  rw [hcached, wanted, hapi] at he
  contradiction

end Watched

end Nodecast
