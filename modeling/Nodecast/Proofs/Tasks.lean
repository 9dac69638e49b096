import Nodecast.Collector.Cycle
import Nodecast.Collector.Replay
import Nodecast.Proofs.Hub.Pushes
import Nodecast.Proofs.Transitions

/-!
# The moves of cycles and replays

Which moves a task takes in each stage, and what comes of them.
-/

namespace Nodecast

variable {c c' : Collector} {hub hub' : Hub Event} {y y' : Cycle} {r : Replay} {ticket : Nat}
  {key k : Key}

/-! ## The steps of a cycle -/

theorem Cycle.outcome?_eq_some {outcome : Except CycleError (List Event)} :
    y.outcome? = some outcome ↔ y.stage = .ended outcome := by
  unfold outcome?
  cases y.stage <;> simp

/-- The moves that a cycle takes in each stage. -/
inductive Collector.CycleStep (c : Collector) (hub : Hub Event) (y : Cycle) :
    Cycle.Move → Cycle → Collector → Hub Event → Prop where
  | lock (cancelled : Bool) : y.stage = .locking → c.locks.stage? y.ticket = some .granted →
      CycleStep c hub y (.lock cancelled) (c.locked y cancelled).1 (c.locked y cancelled).2 hub
  | fetch (answer : Except CycleError (Option Tracked)) : y.stage = .fetching →
      CycleStep c hub y (.fetch answer) (c.fetched y answer).1 (c.fetched y answer).2 hub
  | resolve (object : Tracked) (prior : Option Entry) (answer : Except CycleError NodeSet) :
      y.stage = .resolving object prior → CycleStep c hub y (.resolve answer)
        (c.resolved y object prior answer).1 (c.resolved y object prior answer).2 hub
  | cancel : (y.stage = .fetching ∨ ∃ object prior, y.stage = .resolving object prior) →
      CycleStep c hub y .cancel (c.cancelCycle y).1 (c.cancelCycle y).2 hub
  | commit (hadPrior : Bool) (t : Transition) (cancelled : Bool) :
      y.stage = .committing hadPrior t → CycleStep c hub y (.commit cancelled)
        (c.commit y hadPrior t cancelled).1 (c.commit y hadPrior t cancelled).2 hub
  | miss (events : List Event) (e : Event) (rest : List Event) :
      y.stage = .pushing events (e :: rest) → hub.connection? e.node = none →
      CycleStep c hub y .push { y with stage := .pushing events rest }
        { c with counts := c.counts.record e.change } (hub.refuse e.node).2
  | find (events : List Event) (e : Event) (rest : List Event) (g : Nat) (s : Hub.Stream Event) :
      y.stage = .pushing events (e :: rest) → hub.connection? e.node = some (g, s) →
      CycleStep c hub y .push { y with stage := .offering events g e rest }
        { c with counts := c.counts.record e.change } hub
  | offer (events : List Event) (g : Nat) (e : Event) (rest : List Event) :
      y.stage = .offering events g e rest → CycleStep c hub y .offer
        { y with stage := .pushing events rest } c (hub.offer e.node g e).2
  | finish (events : List Event) : y.stage = .pushing events [] →
      CycleStep c hub y .finish (c.endCycle y (.ok events)).1 (c.endCycle y (.ok events)).2 hub

theorem Collector.moveUnheard_step {m : Cycle.Move} {x : Cycle × Collector}
    (h : c.moveUnheard y m = some x) : c.CycleStep hub y m x.1 x.2 hub := by
  unfold Collector.moveUnheard at h
  split at h
  case h_1 cancelled hs =>
    split at h
    · next hgranted =>
      cases h
      exact .lock cancelled hs hgranted
    · contradiction
  case h_2 answer hs =>
    cases h
    exact .fetch answer hs
  case h_3 object prior answer hs =>
    cases h
    exact .resolve object prior answer hs
  case h_4 hs =>
    cases h
    exact .cancel (.inl hs)
  case h_5 object prior hs =>
    cases h
    exact .cancel (.inr ⟨object, prior, hs⟩)
  case h_6 hadPrior t cancelled hs =>
    cases h
    exact .commit hadPrior t cancelled hs
  case h_7 events hs =>
    cases h
    exact .finish events hs
  case h_8 => contradiction

theorem Collector.findStream_step {events rest : List Event} {e : Event}
    (hs : y.stage = .pushing events (e :: rest)) :
    c.CycleStep hub y .push (c.findStream hub y events e rest).1
      (c.findStream hub y events e rest).2.1 (c.findStream hub y events e rest).2.2 := by
  unfold Collector.findStream
  dsimp only
  split
  · next hnone => exact .miss events e rest hs hnone
  · next g s hc => exact .find events e rest g s hs hc

theorem Collector.moveCycle_step {m : Cycle.Move}
    (h : c.moveCycle hub y m = some (y', c', hub')) : c.CycleStep hub y m y' c' hub' := by
  unfold Collector.moveCycle at h
  split at h
  · next events e rest hs =>
    have hstep : c.CycleStep hub y .push _ _ _ := findStream_step hs
    rwa [Option.some.inj h] at hstep
  · next events g e rest hs =>
    cases h
    exact .offer events g e rest hs
  · obtain ⟨⟨y1, c1⟩, h1, he⟩ := Option.map_eq_some_iff.1 h
    cases he
    exact moveUnheard_step h1

theorem Collector.CycleStep.move {m : Cycle.Move} (h : c.CycleStep hub y m y' c' hub') :
    c.moveCycle hub y m = some (y', c', hub') := by
  cases h with
  | lock cancelled hs hgranted => simp [moveCycle, moveUnheard, hs, hgranted]
  | cancel hs => rcases hs with hs | ⟨object, prior, hs⟩ <;> simp [moveCycle, moveUnheard, hs]
  | miss events e rest hs hnone => simp [moveCycle, findStream, hs, hnone]
  | find events e rest g s hs hc => simp [moveCycle, findStream, hs, hc]
  | offer events g e rest hs => simp [moveCycle, hs]
  | fetch answer hs => simp [moveCycle, moveUnheard, hs]
  | resolve object prior answer hs => simp [moveCycle, moveUnheard, hs]
  | commit hadPrior t cancelled hs => simp [moveCycle, moveUnheard, hs]
  | finish events hs => simp [moveCycle, moveUnheard, hs]

theorem Collector.CycleStep.key_eq {m : Cycle.Move} (h : c.CycleStep hub y m y' c' hub') :
    y'.key = y.key := by
  cases h with
  | lock cancelled => cases cancelled <;> rfl
  | fetch answer =>
    unfold Collector.fetched
    split <;> rfl
  | resolve _ _ answer => cases answer <;> rfl
  | commit _ _ cancelled => cases cancelled <;> rfl
  | cancel | miss | find | offer | finish => rfl

theorem Collector.CycleStep.cache_eq {m : Cycle.Move} (h : c.CycleStep hub y m y' c' hub')
    (hk : k ≠ y.key) : c'.cache.get? k = c.cache.get? k := by
  cases h with
  | lock cancelled => cases cancelled <;> rfl
  | fetch answer =>
    unfold Collector.fetched
    split <;> rfl
  | resolve _ _ answer => cases answer <;> rfl
  | commit hadPrior t cancelled =>
    cases cancelled
    · exact get?_commit_of_ne hk hadPrior t
    · rfl
  | cancel | miss | find | offer | finish => rfl

/-! ## The steps of a replay -/

/-- The moves that a replay takes in each stage, what comes of them, and which item is sent. -/
inductive Collector.ReplayStep (c : Collector) (hub : Hub Event) (r : Replay) :
    Replay.Move → Replay → Collector → Hub Event → Option (Nat × Event) → Prop where
  | list (unseen : List Key) (key : Key) (entry : Entry) : r.stage = .listing unseen →
      c.cache.get? key = some entry → key ∉ r.rest → ReplayStep c hub r (.list key)
        { r with rest := r.rest ++ [key], stage := .listing (unseen.erase key) } c hub none
  | pass (unseen : List Key) (key : Key) : r.stage = .listing unseen →
      c.cache.get? key = none → key ∈ unseen → ReplayStep c hub r (.list key)
        { r with stage := .listing (unseen.erase key) } c hub none
  | next (key : Key) (rest : List Key) : r.stage = .listing [] ∨ r.stage = .visiting →
      r.rest = key :: rest → ReplayStep c hub r (.visit false)
        { r with rest, stage := .locking key (c.locks.request key).1 }
        { c with locks := (c.locks.request key).2 } hub none
  | stop (cancelled : Bool) : r.stage = .listing [] ∨ r.stage = .visiting →
      cancelled = true ∨ r.rest = [] →
      ReplayStep c hub r (.visit cancelled) { r with stage := .ended } c hub none
  | skip (key : Key) (ticket : Nat) : r.stage = .locking key ticket →
      c.locks.stage? ticket = some .granted → c.replayed? r key = none →
      ReplayStep c hub r .lock { r with stage := .visiting }
        (Collector.release { c with locks := c.locks.take ticket } ticket) hub none
  | reach (key : Key) (ticket : Nat) (e : Event) (g : Nat) (s : Hub.Stream Event) :
      r.stage = .locking key ticket → c.locks.stage? ticket = some .granted →
      c.replayed? r key = some e → hub.connection? e.node = some (g, s) →
      ReplayStep c hub r .lock { r with stage := .reaching key ticket g e }
        { c with locks := c.locks.take ticket } hub none
  | unheard (key : Key) (ticket : Nat) (e : Event) :
      r.stage = .locking key ticket → c.locks.stage? ticket = some .granted →
      c.replayed? r key = some e → hub.connection? e.node = none →
      ReplayStep c hub r .lock { r with stage := .ended }
        (Collector.release { c with locks := c.locks.take ticket } ticket) (hub.refuse e.node).2
        none
  | stopped (key : Key) (ticket : Nat) (e : Event) : r.stage = .locking key ticket →
      c.locks.stage? ticket = some .granted → c.replayed? r key = some e →
      ReplayStep c hub r .cancel { r with stage := .ended }
        (Collector.release { c with locks := c.locks.take ticket } ticket) hub none
  | reserve (key : Key) (ticket g : Nat) (e : Event) : r.stage = .reaching key ticket g e →
      ReplayStep c hub r .reserve { r with stage := .pacing key ticket (hub.reserve g e).1 } c
        (hub.reserve g e).2 none
  | sent (key : Key) (ticket : Nat) (push : Hub.PacedRef) (e : Event) (hub' : Hub Event) :
      r.stage = .pacing key ticket push → hub.resume? push = some (.ok (), hub') →
      hub.item? push = some e →
      ReplayStep c hub r .resume { r with count := r.count + 1, stage := .visiting }
        (c.release ticket) hub' (some (push.generation, e))
  | lost (key : Key) (ticket : Nat) (push : Hub.PacedRef) (failure : DeliveryError)
      (hub' : Hub Event) : r.stage = .pacing key ticket push →
      hub.resume? push = some (.error failure, hub') →
      ReplayStep c hub r .resume { r with stage := .ended } (c.release ticket) hub' none
  | expire (key : Key) (ticket : Nat) (push : Hub.PacedRef) : r.stage = .pacing key ticket push →
      ReplayStep c hub r .expire (c.replayPushed r ticket (hub.expire push).1).1
        (c.replayPushed r ticket (hub.expire push).1).2 (hub.expire push).2 none
  | cancel (key : Key) (ticket : Nat) (push : Hub.PacedRef) : r.stage = .pacing key ticket push →
      ReplayStep c hub r .cancel { r with stage := .ended } (c.release ticket) (hub.abandon push)
        none

theorem Collector.list?_step {unseen : List Key} {r' : Replay} (hs : r.stage = .listing unseen)
    (h : c.list? r unseen key = some r') : c.ReplayStep hub r (.list key) r' c hub none := by
  unfold Collector.list? at h
  split at h
  · next entry he =>
    obtain ⟨hnew, h⟩ := Option.ite_none_left_eq_some.1 h
    cases h
    exact .list unseen key entry hs he hnew
  · next he =>
    obtain ⟨hmem, h⟩ := Option.ite_none_right_eq_some.1 h
    cases h
    exact .pass unseen key hs he hmem

theorem Collector.visit_step (hs : r.stage = .listing [] ∨ r.stage = .visiting)
    (cancelled : Bool) :
    c.ReplayStep hub r (.visit cancelled) (c.visit r cancelled).1 (c.visit r cancelled).2 hub
      none := by
  cases cancelled with
  | true => exact .stop true hs (.inl rfl)
  | false =>
    cases hrest : r.rest with
    | nil =>
      have h : c.visit r false = ({ r with stage := .ended }, c) := by
        unfold Collector.visit
        rw [hrest]
      rw [h]
      exact .stop false hs (.inr hrest)
    | cons key rest =>
      simp only [Collector.visit, hrest]
      exact .next key rest hs hrest

theorem Collector.replayLocked_step (hs : r.stage = .locking key ticket)
    (hgranted : c.locks.stage? ticket = some .granted) :
    c.ReplayStep hub r .lock (c.replayLocked hub r key ticket).1
      (c.replayLocked hub r key ticket).2.1 (c.replayLocked hub r key ticket).2.2 none := by
  unfold Collector.replayLocked
  dsimp only
  split
  · next hnone => exact .skip key ticket hs hgranted hnone
  · next e he =>
    split
    · next hnone => exact .unheard key ticket e hs hgranted he hnone
    · next g s hc => exact .reach key ticket e g s hs hgranted he hc

theorem Collector.moveReplay_step {m : Replay.Move} {x : Replay × Collector × Hub Event}
    (h : c.moveReplay hub r m = some x) : ∃ sent, c.ReplayStep hub r m x.1 x.2.1 x.2.2 sent := by
  unfold Collector.moveReplay at h
  split at h
  case h_1 unseen key hs =>
    obtain ⟨r', hr, rfl⟩ := Option.map_eq_some_iff.1 h
    exact ⟨none, list?_step hs hr⟩
  case h_2 cancelled hs =>
    obtain rfl := Option.some.inj h
    exact ⟨none, visit_step (.inl hs) cancelled⟩
  case h_3 cancelled hs =>
    obtain rfl := Option.some.inj h
    exact ⟨none, visit_step (.inr hs) cancelled⟩
  case h_4 key ticket hs =>
    obtain ⟨hgranted, h⟩ := Option.ite_none_right_eq_some.1 h
    obtain rfl := Option.some.inj h
    exact ⟨none, replayLocked_step hs hgranted⟩
  case h_5 key ticket hs =>
    obtain ⟨⟨hgranted, he⟩, h⟩ := Option.ite_none_right_eq_some.1 h
    obtain ⟨e, he⟩ := Option.isSome_iff_exists.1 he
    cases h
    exact ⟨none, .stopped key ticket e hs hgranted he⟩
  case h_6 key ticket g e hs =>
    cases h
    exact ⟨none, .reserve key ticket g e hs⟩
  case h_7 key ticket push hs =>
    obtain ⟨⟨outcome, hub'⟩, hr, rfl⟩ := Option.map_eq_some_iff.1 h
    cases outcome with
    | ok u =>
      obtain ⟨e, he⟩ := Hub.item?_of_resume? hr
      exact ⟨_, .sent key ticket push e hub' hs hr he⟩
    | error failure => exact ⟨none, .lost key ticket push failure hub' hs hr⟩
  case h_8 key ticket push hs =>
    obtain ⟨-, h⟩ := Option.ite_none_left_eq_some.1 h
    cases h
    exact ⟨none, .expire key ticket push hs⟩
  case h_9 key ticket push hs =>
    cases h
    exact ⟨none, .cancel key ticket push hs⟩
  case h_10 => contradiction

end Nodecast
