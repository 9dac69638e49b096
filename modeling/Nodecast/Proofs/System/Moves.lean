import Nodecast.Proofs.System.Runs

/-!
# The steps of the system by their actions

Which task takes a step, and what becomes of its collector and of the hub.
-/

namespace Nodecast

variable {c c' : Collector} {hub hub' : Hub Event} {r r' : Replay} {sent : Option (Nat × Event)}

theorem Collector.ReplayStep.same {m : Replay.Move} (h : c.ReplayStep hub r m r' c' hub' sent) :
    c'.cache = c.cache ∧ c'.counts = c.counts := by
  cases h with
  | expire key ticket push =>
    cases (hub.expire push).1 <;> exact ⟨rfl, rfl⟩
  | _ => exact ⟨rfl, rfl⟩

namespace World

variable {w w' : World} {i : Nat} {t : Task} {a : Action} {y y' : Cycle}

/-! ## What a task may rely on -/

theorem Sound.of_cycle (S : w.Sound) (ht : w.tasks.get? i = some t) (ha : t.activity = .cycle y)
    (hc : w.collectors.get? t.kind = some c) :
    y.Sound c w.hub (w.lefts t.kind y.key).length t.commit := by
  obtain ⟨d, hd, hs⟩ := S.tasks ht
  rw [hc, Option.some.injEq] at hd
  subst hd
  simpa only [Task.Sound, ha] using hs

theorem Sound.of_replay (S : w.Sound) (ht : w.tasks.get? i = some t)
    (ha : t.activity = .replay r) (hc : w.collectors.get? t.kind = some c) :
    r.Sound c w.hub (fun key => (w.lefts t.kind key).length) t.commit := by
  obtain ⟨d, hd, hs⟩ := S.tasks ht
  rw [hc, Option.some.injEq] at hd
  subst hd
  simpa only [Task.Sound, ha] using hs

/-! ## Steps -/

inductive Step (w : World) : Action → World → Prop where
  | reconcile {kind : Kind} {c : Collector} (key : Key) : w.collectors.get? kind = some c →
      Step w (.reconcile kind key) (w.beginCycle kind key c)
  | join {kind : Kind} {c : Collector} {node : String} {hub : Hub Event} :
      w.collectors.get? kind = some c → w.hub.nextJoin c.listener = some (node, hub) →
      Step w (.join kind) (w.beginReplay kind node c hub)
  | cycle {i : Nat} {t : Task} {c c' : Collector} {y y' : Cycle} {m : Cycle.Move} {hub : Hub Event}
      (commit : Nat) (made : List Commit) : w.tasks.get? i = some t →
      w.collectors.get? t.kind = some c → t.activity = .cycle y →
      c.moveCycle w.hub y m = some (y', c', hub) →
      Step w (.cycle i m) (w.advance i { t with activity := .cycle y', commit } c' hub made)
  | replay {i : Nat} {t : Task} {c c' : Collector} {r r' : Replay} {m : Replay.Move}
      {hub : Hub Event} (commit : Nat) (cancelled : Bool) : w.tasks.get? i = some t →
      w.collectors.get? t.kind = some c → t.activity = .replay r →
      c.moveReplay w.hub r m = some (r', c', hub) →
      Step w (.replay i m)
        (w.advance i { t with activity := .replay r', commit, cancelled } c' hub [])
  | wish (wish : Wish) : Step w (.wish wish) { w with hub := grant w.hub wish }

theorem step_of_step (h : w.step a = some w') : w.Step a w' := by
  cases a with
  | reconcile kind key =>
    obtain ⟨c, hc, rfl⟩ := Option.map_eq_some_iff.1 h
    exact .reconcile key hc
  | join kind =>
    obtain ⟨c, hc, h⟩ := Option.bind_eq_some_iff.1 h
    obtain ⟨⟨node, hub⟩, hj, h⟩ := Option.bind_eq_some_iff.1 h
    cases h
    exact .join hc hj
  | cycle i m =>
    obtain ⟨t, ht, h⟩ := Option.bind_eq_some_iff.1 h
    obtain ⟨c, hc, h⟩ := Option.bind_eq_some_iff.1 h
    split at h
    · next y ha =>
      obtain ⟨⟨y', c', hub⟩, hm, hw⟩ := Option.map_eq_some_iff.1 h
      dsimp only at hw
      split at hw
      · cases hw
        exact .cycle _ _ ht hc ha hm
      · cases hw
        exact .cycle t.commit _ ht hc ha hm
    · contradiction
  | replay i m =>
    obtain ⟨t, ht, h⟩ := Option.bind_eq_some_iff.1 h
    obtain ⟨c, hc, h⟩ := Option.bind_eq_some_iff.1 h
    split at h
    · contradiction
    · next r ha =>
      obtain ⟨⟨r', c', hub⟩, hm, rfl⟩ := Option.map_eq_some_iff.1 h
      exact .replay _ _ ht hc ha hm
  | wish wish =>
    cases h
    exact .wish wish

theorem cycle_unique {t' : Task} (ht : w.tasks.get? i = some t) (ha : t.activity = .cycle y)
    (ht' : w.tasks.get? i = some t') (ha' : t'.activity = .cycle y') : t' = t ∧ y' = y := by
  rw [ht, Option.some.injEq] at ht'
  subst ht'
  rw [ha] at ha'
  cases ha'
  exact ⟨rfl, rfl⟩

theorem ne_replay_of_cycle {t' : Task} (ht : w.tasks.get? i = some t)
    (ha : t.activity = .cycle y) (ht' : w.tasks.get? i = some t') :
    t'.activity ≠ .replay r := by
  rw [ht, Option.some.injEq] at ht'
  rw [← ht', ha]
  exact nofun

theorem cycleStep_of_step {m : Cycle.Move} (h : w.step (.cycle i m) = some w')
    (ht : w.tasks.get? i = some t) (ha : t.activity = .cycle y)
    (hc : w.collectors.get? t.kind = some c) : ∃ c' y' hub commit made,
      c.CycleStep w.hub y m y' c' hub ∧
        w' = w.advance i { t with activity := .cycle y', commit } c' hub made := by
  cases step_of_step h with
  | cycle commit made ht' hc' ha' hm =>
    obtain ⟨rfl, rfl⟩ := cycle_unique ht ha ht' ha'
    rw [hc, Option.some.injEq] at hc'
    subst hc'
    exact ⟨_, _, _, _, _, Collector.moveCycle_step hm, rfl⟩

/-! ## Steps that can be taken -/

theorem exists_step_cycle (ht : w.tasks.get? i = some t) (hc : w.collectors.get? t.kind = some c)
    (ha : t.activity = .cycle y) {m : Cycle.Move}
    (hm : c.moveCycle w.hub y m = some (y', c', hub)) : ∃ commit made, w.step (.cycle i m) =
      some (w.advance i { t with activity := .cycle y', commit } c' hub made) := by
  have hstep : w.step (.cycle i m) = w.moveCycle i t c y m := by
    simp [step, ht, hc, ha]
  rw [hstep, moveCycle, hm, Option.map_some]
  dsimp only
  split
  · exact ⟨_, _, rfl⟩
  · exact ⟨t.commit, _, rfl⟩

theorem exists_step_replay (ht : w.tasks.get? i = some t) (hc : w.collectors.get? t.kind = some c)
    (ha : t.activity = .replay r) {m : Replay.Move}
    (hm : c.moveReplay w.hub r m = some (r', c', hub)) : ∃ commit cancelled,
      w.step (.replay i m) =
        some (w.advance i { t with activity := .replay r', commit, cancelled } c' hub []) := by
  have hstep : w.step (.replay i m) = w.moveReplay i t c r m := by
    simp [step, ht, hc, ha]
  rw [hstep, moveReplay, hm]
  exact ⟨_, _, rfl⟩

end World

end Nodecast
