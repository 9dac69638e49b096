import Nodecast.Proofs.System.Moves

/-!
# Cycles return

A cycle that has the lock is never stuck. Whatever it is told, it ends after some steps of its own.
-/

namespace Nodecast

variable {c c' : Collector} {hub hub' : Hub Event} {y y' : Cycle} {m : Cycle.Move}

namespace Cycle

/-- The moves that a stage waits for. -/
def Takes (y : Cycle) (m : Move) : Prop :=
  match y.stage, m with
  | .locking, .lock _ | .fetching, .fetch _ | .fetching, .cancel | .resolving .., .resolve _
  | .resolving .., .cancel | .committing .., .commit _ | .pushing _ (_ :: _), .push
  | .offering .., .offer | .pushing _ [], .finish => True
  | _, _ => False

def phase (y : Cycle) : Nat :=
  match y.stage with
  | .locking => 5
  | .fetching => 4
  | .resolving .. => 3
  | .committing .. => 2
  | .pushing .. | .offering .. => 1
  | .ended _ => 0

/-- How many steps the events take that are owed. -/
def toPush (y : Cycle) : Nat :=
  match y.stage with
  | .pushing _ rest => 2 * rest.length
  | .offering _ _ _ rest => 2 * rest.length + 1
  | _ => 0

end Cycle

theorem Collector.isSome_moveCycle (hub : Hub Event) (h : y.Takes m)
    (hlock : y.stage = .locking → c.locks.stage? y.ticket = some .granted) :
    (c.moveCycle hub y m).isSome = true := by
  unfold Cycle.Takes at h
  split at h
  case h_1 cancelled hs => simp [moveCycle, moveUnheard, hs, hlock hs]
  case h_7 | h_8 =>
    next hs => simp [moveCycle, hs]
  case h_10 => contradiction
  all_goals
    next hs => simp [moveCycle, moveUnheard, hs]

theorem Collector.CycleStep.forward (h : c.CycleStep hub y m y' c' hub') :
    y'.stage ≠ .locking ∧ (y'.phase < y.phase ∨
      (y'.phase = y.phase ∧ y'.toPush < y.toPush)) := by
  unfold Cycle.phase Cycle.toPush
  cases h with
  | lock cancelled hs =>
    rw [hs]
    cases cancelled
    · exact ⟨nofun, .inl (Nat.lt_succ_self 4)⟩
    · exact ⟨nofun, .inl (Nat.succ_pos 4)⟩
  | fetch answer hs =>
    rw [hs]
    unfold Collector.fetched
    split <;> exact ⟨nofun, .inl (by simp [abortCycle, endCycle])⟩
  | resolve object prior answer hs =>
    rw [hs]
    cases answer <;> exact ⟨nofun, .inl (by simp [resolved, abortCycle, endCycle])⟩
  | cancel hs =>
    rcases hs with hs | ⟨object, prior, hs⟩ <;> rw [hs] <;> exact ⟨nofun, .inl (Nat.succ_pos _)⟩
  | commit hadPrior step cancelled hs =>
    rw [hs]
    cases cancelled
    · exact ⟨nofun, .inl (Nat.lt_succ_self 1)⟩
    · exact ⟨nofun, .inl (Nat.succ_pos _)⟩
  | miss events e rest hs | find events e rest g s hs | offer events g e rest hs =>
    rw [hs]
    exact ⟨nofun, .inr ⟨rfl, by simp only [List.length_cons]; omega⟩⟩
  | finish events hs =>
    rw [hs]
    exact ⟨nofun, .inl (Nat.succ_pos _)⟩

namespace World

variable {v : World} {i : Nat} {t : Task}

/-- Cycle `i` ends when nobody else takes a step and it is told what `reply` says. -/
inductive Returns (i : Nat) (reply : Cycle → Cycle.Move) : World → Prop where
  | ended {v : World} {t : Task} {y : Cycle} {outcome : Except CycleError (List Event)} :
      v.tasks.get? i = some t → t.activity = .cycle y → y.outcome? = some outcome →
      Returns i reply v
  | step {v v' : World} {t : Task} {y : Cycle} : v.tasks.get? i = some t →
      t.activity = .cycle y → v.step (.cycle i (reply y)) = some v' → Returns i reply v' →
      Returns i reply v

theorem returns {reply : Cycle → Cycle.Move}
    (hreply : ∀ y : Cycle, y.outcome? = none → y.Takes (reply y)) (ht : v.tasks.get? i = some t)
    (ha : t.activity = .cycle y) (hc : v.collectors.get? t.kind = some c)
    (hlock : y.stage = .locking → c.locks.stage? y.ticket = some .granted) :
    v.Returns i reply := by
  -- The stages come one after the other, and the events that are owed go one by one.
  induction hp : y.phase using Nat.strongRecOn generalizing v t y c with
  | ind p ihp =>
    induction hn : y.toPush using Nat.strongRecOn generalizing v t y c with
    | ind n ihn =>
      cases hend : y.outcome? with
      | some outcome => exact .ended ht ha hend
      | none =>
        have hsome := Collector.isSome_moveCycle v.hub (hreply y hend) hlock
        obtain ⟨⟨y', c', hub'⟩, hm⟩ := Option.isSome_iff_exists.1 hsome
        obtain ⟨commit, made, hs⟩ := exists_step_cycle ht hc ha hm
        obtain ⟨hnever, hforward⟩ := (Collector.moveCycle_step hm).forward
        refine .step ht ha hs ?_
        generalize hv : v.advance i { t with activity := .cycle y', commit } c' hub' made = v'
        have ht' : v'.tasks.get? i = some { t with activity := .cycle y', commit } := by
          rw [← hv, get?_tasks_advance, if_pos rfl]
        have hc' : v'.collectors.get? t.kind = some c' := by
          rw [← hv, get?_collectors_advance, if_pos rfl]
        have hlock' : y'.stage = .locking → c'.locks.stage? y'.ticket = some .granted :=
          fun hs => absurd hs hnever
        rcases hforward with hlt | ⟨heq, hlt⟩
        · exact ihp y'.phase (hp ▸ hlt) ht' rfl hc' hlock' rfl
        · exact ihn y'.toPush (hn ▸ hlt) ht' rfl hc' hlock' (heq.trans hp) rfl

end World

end Nodecast
