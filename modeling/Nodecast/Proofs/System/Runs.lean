import Nodecast.Proofs.System.Turns

/-!
# Runs of the system

Every step is a turn of a task, or concerns subscribers only.
-/

namespace Nodecast.World

variable {w w' : World} {i : Nat} {t : Task} {c : Collector} {hub : Hub Event} {kind : Kind}
  {key : Key} {node : String} {a : Action}

/-! ## Tasks that begin -/

theorem Sound.get?_of_le (S : w.Sound) (h : w.nextTask ≤ i) : w.tasks.get? i = none := by
  rw [Option.eq_none_iff_forall_ne_some]
  intro t ht
  exact absurd (S.begun ht).1 (Nat.not_lt_of_le h)

theorem Sound.get?_nextTask (S : w.Sound) : w.tasks.get? w.nextTask = none :=
  S.get?_of_le (Nat.le_refl _)

theorem Sound.nothing (S : w.Sound) : w.ticketOf w.nextTask = none ∧ w.pushOf w.nextTask = none ∧
    ∀ g, w.owesOf w.nextTask g = [] := by
  simp [ticketOf, pushOf, owesOf, S.get?_nextTask]

theorem Turn.of_beginCycle (S : w.Sound) (hc : w.collectors.get? kind = some c) (key : Key) :
    Turn w w.nextTask
      { kind, activity := .cycle (c.beginCycle key).1, since := w.hub.nextGeneration } c
      (c.beginCycle key).2 w.hub [] none none := by
  obtain ⟨hticket, -, howes⟩ := S.nothing
  have v := S.locks hc
  refine .of_relocks S hc ?_ (Nat.le_refl _) (.request v key) (.inr ?_) ?_
    (S.hub.moves_of_streams rfl rfl id rfl rfl) (by simp) (by simp [Task.push?]) ?_ (by simp) ?_
  · simp [S.get?_nextTask]
  · exact Nat.le_of_eq (KeyedLock.request_ticket c.locks key).symm
  · intro x hx
    exact (Option.some.inj hx).symm
  · exact KeyedLock.asks_request c.locks key
  · simp [howes]

theorem Turn.of_beginReplay (S : w.Sound) (hc : w.collectors.get? kind = some c)
    (m : Hub.Moves w.hub hub none none) (node : String) :
    Turn w w.nextTask
      { kind, activity := .replay (c.beginReplay node), since := w.hub.nextGeneration } c c hub []
      none none := by
  obtain ⟨hticket, -, howes⟩ := S.nothing
  refine .of_relocks S hc ?_ (Nat.le_refl _) (.refl (S.locks hc) c.locks.nextTicket)
    (.inr (Nat.le_refl _)) ?_ m (by simp) ?_ ?_ (by simp) ?_
  · simp [S.get?_nextTask]
  · simp [Task.ticket?, Replay.ticket?, Collector.beginReplay]
  · simp [Task.push?, Replay.push?, Collector.beginReplay]
  · trivial
  · simp [howes]

/-! ## Every step -/

theorem moves_nextJoin (v : w.hub.Valid) {listener : Nat}
    (h : w.hub.nextJoin listener = some (node, hub)) : Hub.Moves w.hub hub none none := by
  have m := v.nextJoin listener
  rwa [h] at m

theorem moves_grant (v : w.hub.Valid) (wish : Wish) :
    Hub.Moves w.hub (grant w.hub wish) none none := by
  cases wish with
  | register node => exact v.register node
  | announce node => exact v.moves_of_streams rfl rfl id rfl rfl
  | unregister node => exact v.unregister node
  | leave generation => exact v.drop generation
  | receive generation => exact v.receive generation

inductive Happens (w : World) : World → Prop where
  | cycle {i : Nat} {t : Task} {c c' : Collector} {hub : Hub Event} {made : List Commit}
      {sent : Option (Nat × Event)} {spent : Option Hub.PacedRef} (y : Cycle) :
      t.activity = .cycle y → Turn w i t c c' hub made sent spent →
      Happens w (w.advance i t c' hub made)
  | join {kind : Kind} {c : Collector} {hub : Hub Event} (node : String) :
      Turn w w.nextTask
        { kind, activity := .replay (c.beginReplay node), since := w.hub.nextGeneration } c c hub []
        none none →
      Happens w (w.beginReplay kind node c hub)
  | replay {i : Nat} {t : Task} {c c' : Collector} {hub : Hub Event}
      {sent : Option (Nat × Event)} {spent : Option Hub.PacedRef} {r r' : Replay} {m : Replay.Move}
      (commit : Nat) : w.tasks.get? i = some t → t.activity = .replay r →
      c.ReplayStep w.hub r m r' c' hub sent →
      Turn w i
        { t with activity := .replay r', commit, cancelled := t.cancelled || r.isCutBy m } c c' hub
        [] sent spent →
      Happens w (w.advance i
        { t with activity := .replay r', commit, cancelled := t.cancelled || r.isCutBy m } c' hub
        [])
  | wish {hub : Hub Event} : Hub.Moves w.hub hub none none → Happens w { w with hub }

theorem step_happens (S : w.Sound) (h : w.step a = some w') : w.Happens w' := by
  cases a with
  | reconcile kind key =>
    obtain ⟨c, hc, rfl⟩ := Option.map_eq_some_iff.1 h
    exact .cycle _ rfl (.of_beginCycle S hc key)
  | join kind =>
    obtain ⟨c, hc, h⟩ := Option.bind_eq_some_iff.1 h
    obtain ⟨⟨node, hub⟩, hj, h⟩ := Option.bind_eq_some_iff.1 h
    cases h
    exact .join node (.of_beginReplay S hc (moves_nextJoin S.hub hj) node)
  | cycle i m =>
    obtain ⟨t, ht, h⟩ := Option.bind_eq_some_iff.1 h
    obtain ⟨c, hc, h⟩ := Option.bind_eq_some_iff.1 h
    split at h
    · next y ha =>
      obtain ⟨t', y', c', hub, made, sent, spent, -, ha', rfl, T⟩ := cycle_turn S ht ha hc h
      exact .cycle y' ha' T
    · contradiction
  | replay i m =>
    obtain ⟨t, ht, h⟩ := Option.bind_eq_some_iff.1 h
    obtain ⟨c, hc, h⟩ := Option.bind_eq_some_iff.1 h
    split at h
    · contradiction
    · next r ha =>
      obtain ⟨r', c', hub, commit, sent, spent, hstep, rfl, T⟩ := replay_turn S ht ha hc h
      exact .replay commit ht ha hstep T
  | wish wish =>
    cases h
    exact .wish (moves_grant S.hub wish)

theorem step_cases (S : w.Sound) (h : w.step a = some w') :
    (∃ i t c c' hub made sent spent, w' = w.advance i t c' hub made ∧
      Turn w i t c c' hub made sent spent) ∨
    (∃ hub, w' = { w with hub } ∧ Hub.Moves w.hub hub none none) := by
  cases step_happens S h with
  | cycle y _ T => exact Or.inl ⟨_, _, _, _, _, _, _, _, rfl, T⟩
  | join node T => exact Or.inl ⟨_, _, _, _, _, _, _, _, rfl, T⟩
  | replay commit _ _ _ T => exact Or.inl ⟨_, _, _, _, _, _, _, _, rfl, T⟩
  | wish m => exact Or.inr ⟨_, rfl, m⟩

/-! ## Every run -/

theorem Sound.withHub (S : w.Sound) (m : Hub.Moves w.hub hub none none) :
    Sound { w with hub } where
  hub := m.valid
  kinds := S.kinds
  locks := S.locks
  entries := S.entries
  cached := S.cached
  begun := fun ht => ⟨(S.begun ht).1, Nat.le_trans (S.begun ht).2 m.generation⟩
  tasks := by
    intro i t ht
    obtain ⟨c, hc, hs⟩ := S.tasks ht
    exact ⟨c, hc, hs.frame rfl (fun _ _ _ => ⟨id, id⟩) (fun _ _ _ _ => ⟨rfl, rfl⟩) m.node
      fun _ => m.item (by simp)⟩
  tickets := S.tickets
  pushes := S.pushes

theorem Sound.step (S : w.Sound) (h : w.step a = some w') : w'.Sound := by
  obtain ⟨i, t, c, c', hub, made, sent, spent, rfl, T⟩ | ⟨hub, rfl, m⟩ := step_cases S h
  · exact S.advance T
  · exact S.withHub m

/-- Nothing is cached and nobody has a lock. -/
def Fresh (d : Daemon) : Prop :=
  d.hub.Valid ∧ ∀ {kind c}, d.collectors.get? kind = some c →
    c.kind = kind ∧ c.cache = ∅ ∧ c.locks = {}

theorem fresh_enable {d : Daemon} (h : Fresh d) (kind : Kind) (backoff : Backoff) :
    Fresh (d.enable kind backoff) := by
  have m : Hub.Moves d.hub d.hub.listen.2 none none := h.1.moves_of_streams rfl rfl id rfl rfl
  refine ⟨m.valid, ?_⟩
  intro k c hc
  simp only [Daemon.enable, Table.get?_insert] at hc
  split at hc
  · next e =>
    cases hc
    exact ⟨e.symm, rfl, rfl⟩
  · exact h.2 hc

theorem fresh_daemon (s : Settings) : Fresh s.daemon := by
  unfold Settings.daemon
  have h0 : Fresh { hub := { config := s.hubConfig } } :=
    ⟨Hub.valid_init _, fun hc => by contradiction⟩
  revert h0
  generalize ({ hub := { config := s.hubConfig } } : Daemon) = d
  induction s.enabled generalizing d with
  | nil => exact id
  | cons kind rest ih => exact fun h => ih _ (fresh_enable h kind s.backoff)

theorem start_streams (s : Settings) : (start s).hub.streams = ∅ := by
  have hstreams : ∀ d : Daemon, d.hub.streams = ∅ → ∀ kinds : List Kind,
      (kinds.foldl (fun d kind => d.enable kind s.backoff) d).hub.streams = ∅ := by
    intro d hd kinds
    induction kinds generalizing d with
    | nil => exact hd
    | cons kind rest ih => exact ih (d.enable kind s.backoff) hd
  exact hstreams _ rfl s.enabled

theorem sound_start (s : Settings) : (start s).Sound := by
  obtain ⟨hhub, hfresh⟩ := fresh_daemon s
  constructor
  case hub => exact hhub
  case kinds => exact fun hc => (hfresh hc).1
  case locks =>
    intro kind c hc
    rw [(hfresh hc).2.2]
    exact KeyedLock.valid_empty
  case entries =>
    intro kind c key e hc he
    rw [(hfresh hc).2.1] at he
    contradiction
  case cached =>
    intro kind c hc key
    rw [(hfresh hc).2.1]
    rfl
  all_goals intros; contradiction

theorem Reachable.sound (h : Reachable w) : w.Sound := by
  induction h with
  | start s => exact sound_start s
  | step a _ hs ih => exact ih.step hs

end Nodecast.World
