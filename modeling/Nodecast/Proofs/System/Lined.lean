import Nodecast.Proofs.Locks.Order
import Nodecast.Proofs.System.Moves

/-!
# Locks in the system

The lock of a key goes from caller to caller in the order in which they came, and a cycle that is
over has no part in it.
-/

namespace Nodecast

variable {c c' : Collector} {hub hub' : Hub Event} {y y' : Cycle} {r r' : Replay}
  {sent : Option (Nat × Event)} {n commit : Nat} {count : Key → Nat} {key : Key} {ticket : Nat}

/-! ## What tasks do with locks -/

theorem Collector.evolves_take_release {l : KeyedLock} (h : l.stage? ticket = some .granted)
    (ha : l.Asks ticket key) : l.Evolves ((l.take ticket).release ticket) :=
  .release (.take ticket .refl) (KeyedLock.holds_take h ha)

theorem Collector.CycleStep.evolves {m : Cycle.Move} (h : c.CycleStep hub y m y' c' hub')
    (hy : y.Sound c hub n commit) : c.locks.Evolves c'.locks := by
  cases h with
  | lock cancelled hs hgranted =>
    simp only [Cycle.Sound, hs] at hy
    cases cancelled
    · exact .take _ .refl
    · exact evolves_take_release hgranted hy
  | fetch answer hs =>
    simp only [Cycle.Sound, hs] at hy
    unfold Collector.fetched
    split
    · exact .release .refl hy
    · exact .release .refl hy
    · exact .refl
    · exact .refl
  | resolve object prior answer hs =>
    simp only [Cycle.Sound, hs] at hy
    cases answer
    · exact .release .refl hy.1
    · exact .refl
  | cancel hs =>
    rcases hs with hs | ⟨object, prior, hs⟩
    · simp only [Cycle.Sound, hs] at hy
      exact .release .refl hy
    · simp only [Cycle.Sound, hs] at hy
      exact .release .refl hy.1
  | commit hadPrior step cancelled hs =>
    simp only [Cycle.Sound, hs] at hy
    cases cancelled
    · exact .refl
    · exact .release .refl hy.1
  | miss | find | offer => exact .refl
  | finish events hs =>
    simp only [Cycle.Sound, hs] at hy
    exact .release .refl hy.1

theorem Collector.ReplayStep.evolves {m : Replay.Move} (h : c.ReplayStep hub r m r' c' hub' sent)
    (hr : r.Sound c hub count commit) : c.locks.Evolves c'.locks := by
  cases h with
  | next key => exact .request key .refl
  | list | pass | stop | reserve => exact .refl
  | reach => exact .take _ .refl
  | skip key ticket hs hgranted | unheard key ticket e hs hgranted
  | stopped key ticket e hs hgranted =>
    simp only [Replay.Sound, hs] at hr
    exact evolves_take_release hgranted hr
  | sent key ticket push e _ hs =>
    simp only [Replay.Sound, hs] at hr
    exact .release .refl hr.1
  | lost key ticket push failure _ hs =>
    simp only [Replay.Sound, hs] at hr
    exact .release .refl hr.1
  | expire key ticket push hs =>
    simp only [Replay.Sound, hs] at hr
    unfold Collector.replayPushed
    split <;> exact .release .refl hr.1
  | cancel key ticket push hs =>
    simp only [Replay.Sound, hs] at hr
    exact .release .refl hr.1

theorem Collector.CycleStep.ticket?_eq {m : Cycle.Move} (h : c.CycleStep hub y m y' c' hub') :
    y.ticket? = some y.ticket := by
  unfold Cycle.ticket?
  cases h with
  | cancel hs => rcases hs with hs | ⟨object, prior, hs⟩ <;> rw [hs]
  | lock cancelled hs => rw [hs]
  | fetch answer hs => rw [hs]
  | resolve object prior answer hs => rw [hs]
  | commit hadPrior step cancelled hs => rw [hs]
  | miss _ _ _ hs | find _ _ _ _ _ hs | offer _ _ _ _ hs | finish _ hs => rw [hs]

theorem Collector.CycleStep.gone {m : Cycle.Move} (h : c.CycleStep hub y m y' c' hub')
    (hy : y.Sound c hub n commit) (v : c.locks.Valid) (hended : y'.ticket? = none) :
    c'.locks.Gone y'.ticket := by
  have hasks := hy.asks h.ticket?_eq
  cases h with
  | lock cancelled =>
    cases cancelled
    · contradiction
    · exact KeyedLock.gone_release (KeyedLock.asks_take.2 hasks) (v.take y.ticket)
  | fetch answer =>
    revert hended
    unfold Collector.fetched
    split <;> intro hended
    · exact KeyedLock.gone_release hasks v
    · exact KeyedLock.gone_release hasks v
    · contradiction
    · contradiction
  | resolve object prior answer =>
    cases answer
    · exact KeyedLock.gone_release hasks v
    · contradiction
  | commit hadPrior step cancelled =>
    cases cancelled
    · contradiction
    · exact KeyedLock.gone_release hasks v
  | miss | find | offer => contradiction
  | cancel => exact KeyedLock.gone_release hasks v
  | finish => exact KeyedLock.gone_release hasks v

/-! ## What tasks leave as it is -/

theorem Collector.CycleStep.same {m : Cycle.Move} (h : c.CycleStep hub y m y' c' hub') :
    y'.ticket = y.ticket ∧
      c' = { c with cache := c'.cache, locks := c'.locks, counts := c'.counts } ∧
      ∃ l, (l = c.locks ∨ l = c.locks.take y.ticket) ∧
        (c'.locks = l ∨ c'.locks = l.release y.ticket) := by
  cases h with
  | lock cancelled =>
    cases cancelled
    · exact ⟨rfl, rfl, _, .inr rfl, .inl rfl⟩
    · exact ⟨rfl, rfl, _, .inr rfl, .inr rfl⟩
  | fetch answer =>
    unfold Collector.fetched
    split
    · exact ⟨rfl, rfl, _, .inl rfl, .inr rfl⟩
    · exact ⟨rfl, rfl, _, .inl rfl, .inr rfl⟩
    · exact ⟨rfl, rfl, _, .inl rfl, .inl rfl⟩
    · exact ⟨rfl, rfl, _, .inl rfl, .inl rfl⟩
  | resolve object prior answer =>
    cases answer
    · exact ⟨rfl, rfl, _, .inl rfl, .inr rfl⟩
    · exact ⟨rfl, rfl, _, .inl rfl, .inl rfl⟩
  | commit hadPrior step cancelled =>
    cases cancelled
    · exact ⟨rfl, rfl, _, .inl rfl, .inl rfl⟩
    · exact ⟨rfl, rfl, _, .inl rfl, .inr rfl⟩
  | miss | find | offer => exact ⟨rfl, rfl, _, .inl rfl, .inl rfl⟩
  | cancel | finish => exact ⟨rfl, rfl, _, .inl rfl, .inr rfl⟩

theorem Collector.CycleStep.spot?_eq {m : Cycle.Move} (h : c.CycleStep hub y m y' c' hub')
    {s : Nat} (hs : s ≠ y.ticket) : c'.locks.spot? s = c.locks.spot? s := by
  obtain ⟨-, -, l, hl, hc'⟩ := h.same
  have hspot : l.spot? s = c.locks.spot? s := by
    rcases hl with rfl | rfl
    · rfl
    · exact KeyedLock.spot?_take_of_ne hs
  rcases hc' with hc' | hc'
  · rw [hc', hspot]
  · rw [hc', KeyedLock.spot?_release, if_neg hs, hspot]

theorem Collector.CycleStep.nextTicket_eq {m : Cycle.Move}
    (h : c.CycleStep hub y m y' c' hub') : c'.locks.nextTicket = c.locks.nextTicket := by
  obtain ⟨-, -, l, hl, hc'⟩ := h.same
  have hnext : l.nextTicket = c.locks.nextTicket := by
    rcases hl with rfl | rfl
    · rfl
    · exact KeyedLock.nextTicket_take
  rcases hc' with hc' | hc'
  · rw [hc', hnext]
  · rw [hc', KeyedLock.nextTicket_release, hnext]

theorem Collector.ReplayStep.spot?_eq {m : Replay.Move}
    (h : c.ReplayStep hub r m r' c' hub' sent) {s : Nat} (hs : r.ticket? ≠ some s)
    (hlt : s < c.locks.nextTicket) : c'.locks.spot? s = c.locks.spot? s := by
  have hlocking : ∀ {key ticket}, r.stage = .locking key ticket → s ≠ ticket := by
    rintro key ticket hstage rfl
    exact hs (by rw [Replay.ticket?, hstage])
  have hpacing : ∀ {key ticket push}, r.stage = .pacing key ticket push → s ≠ ticket := by
    rintro key ticket push hstage rfl
    exact hs (by rw [Replay.ticket?, hstage])
  cases h with
  | next key => exact KeyedLock.spot?_request.trans (if_neg (Nat.ne_of_lt hlt))
  | list | pass | stop | reserve => rfl
  | skip key ticket hstage | unheard key ticket _ hstage | stopped key ticket _ hstage =>
    refine KeyedLock.spot?_release.trans ((if_neg (hlocking hstage)).trans ?_)
    exact KeyedLock.spot?_take_of_ne (hlocking hstage)
  | reach key ticket _ _ _ hstage => exact KeyedLock.spot?_take_of_ne (hlocking hstage)
  | sent key ticket _ _ _ hstage | lost key ticket _ _ _ hstage | cancel key ticket _ hstage =>
    exact KeyedLock.spot?_release.trans (if_neg (hpacing hstage))
  | expire key ticket push hstage =>
    unfold Collector.replayPushed
    split <;> exact KeyedLock.spot?_release.trans (if_neg (hpacing hstage))

namespace World

variable {w w' : World} {i : Nat} {t : Task} {kind : Kind} {a : Action}

theorem Step.evolves (h : w.Step a w') (S : w.Sound) (hc' : w'.collectors.get? kind = some c') :
    ∃ c, w.collectors.get? kind = some c ∧ c.locks.Evolves c'.locks := by
  have hinsert : ∀ {k c d}, w.collectors.get? k = some c → c.locks.Evolves d.locks →
      (w.collectors.insert k d).get? kind = some c' →
      ∃ c, w.collectors.get? kind = some c ∧ c.locks.Evolves c'.locks := by
    intro k c d hc he hd
    rw [Table.get?_insert] at hd
    split at hd
    · next hk =>
      cases hd
      exact ⟨c, hk ▸ hc, he⟩
    · exact ⟨c', hd, .refl⟩
  cases h with
  | reconcile key hc => exact hinsert hc (.request key .refl) hc'
  | join hc => exact hinsert hc .refl hc'
  | cycle commit made ht hc ha hm =>
    exact hinsert hc ((Collector.moveCycle_step hm).evolves (S.of_cycle ht ha hc)) hc'
  | replay commit cancelled ht hc ha hm =>
    obtain ⟨sent, hstep⟩ := Collector.moveReplay_step hm
    exact hinsert hc (hstep.evolves (S.of_replay ht ha hc)) hc'
  | wish => exact ⟨c', hc', .refl⟩

theorem Reachable.orderly (h : Reachable w) (hc : w.collectors.get? kind = some c) :
    c.locks.Orderly := by
  induction h generalizing c with
  | start s =>
    rw [((fresh_daemon s).2 hc).2.2]
    exact KeyedLock.orderly_empty
  | step a hw hs ih =>
    obtain ⟨d, hd, he⟩ := (step_of_step hs).evolves hw.sound hc
    exact he.orderly (ih hd)

/-- The calls of cycles that have ended are over. -/
def Freed (w : World) : Prop :=
  ∀ {i t y c}, w.tasks.get? i = some t → t.activity = .cycle y → y.ticket? = none →
    w.collectors.get? t.kind = some c → c.locks.Gone y.ticket

theorem Freed.step (F : w.Freed) (S : w.Sound) (h : w.Step a w') : w'.Freed := by
  intro i t y c ht ha hended hc
  obtain ⟨d, hd, he⟩ := h.evolves S hc
  have hold : w.tasks.get? i = some t → c.locks.Gone y.ticket :=
    fun ht0 => he.gone (F ht0 ha hended hd)
  cases h with
  | reconcile key hc0 =>
    rw [beginCycle, get?_tasks_advance] at ht
    split at ht
    · cases ht
      cases ha
      contradiction
    · exact hold ht
  | join hc0 =>
    rw [beginReplay, get?_tasks_advance] at ht
    split at ht
    · cases ht
      contradiction
    · exact hold ht
  | cycle commit made ht0 hc0 ha0 hm =>
    rw [get?_tasks_advance] at ht
    split at ht
    · cases ht
      cases ha
      rw [get?_collectors_advance, if_pos rfl] at hc
      cases hc
      exact (Collector.moveCycle_step hm).gone (S.of_cycle ht0 ha0 hc0) (S.locks hc0) hended
    · exact hold ht
  | replay commit cancelled ht0 hc0 ha0 hm =>
    rw [get?_tasks_advance] at ht
    split at ht
    · cases ht
      contradiction
    · exact hold ht
  | wish => exact hold ht

theorem Reachable.freed (h : Reachable w) : w.Freed := by
  induction h with
  | start s =>
    intro i t y c ht
    contradiction
  | step a hw hs ih => exact ih.step hw.sound (step_of_step hs)

end World

end Nodecast
