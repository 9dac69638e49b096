import Nodecast.Proofs.System.Lined

/-!
# Tickets that are numbered otherwise

Tasks do the same whatever numbers their calls for locks have, as long as the calls come in the same
order.
-/

namespace Nodecast

/-! ## Increasing numbers -/

def Increasing (f : Nat → Nat) : Prop := ∀ ⦃a b⦄, a < b → f a < f b

variable {f : Nat → Nat} {a b x n : Nat}

theorem Increasing.eq_iff (hf : Increasing f) : f a = f b ↔ a = b := by
  constructor
  · intro h
    rcases Nat.lt_trichotomy a b with hlt | heq | hlt
    · have := hf hlt
      omega
    · exact heq
    · have := hf hlt
      omega
  · exact congrArg f

theorem increasing_id : Increasing id := fun _ _ h => h

/-- All numbers but `x`, in order. -/
def past (x n : Nat) : Nat := if n < x then n else n + 1

theorem increasing_past (x : Nat) : Increasing (past x) := by
  intro a b h
  unfold past
  split <;> split <;> omega

theorem past_ne (x n : Nat) : past x n ≠ x := by
  unfold past
  split <;> omega

theorem past_of_lt (h : n < x) : past x n = n := if_pos h

theorem past_of_le (h : x ≤ n) : past x n = n + 1 := if_neg (Nat.not_lt_of_le h)

/-- What place a number has among all but `x`. -/
def fore (x n : Nat) : Nat := if n < x then n else n - 1

theorem past_fore (h : n ≠ x) : past x (fore x n) = n := by
  unfold fore
  split
  · next hn => exact past_of_lt hn
  · rw [past_of_le (by omega)]
    omega

/-! ## Locks -/

namespace KeyedLock

variable {l l' : KeyedLock} {key : Key} {t : Nat}

/-- Call `t` of the second is call `f t` of the first. -/
structure Alike (f : Nat → Nat) (l l' : KeyedLock) : Prop where
  spots : ∀ t, l'.spot? t = l.spot? (f t)
  next : ∀ n, f (l'.nextTicket + n) = l.nextTicket + n

namespace Alike

theorem refl (l : KeyedLock) : l.Alike id l := ⟨fun _ => rfl, fun _ => rfl⟩

theorem nextTicket_eq (h : l.Alike f l') : f l'.nextTicket = l.nextTicket := h.next 0

theorem ticket_eq (h : l.Alike f l') (key : Key) : (l.request key).1 = f (l'.request key).1 := by
  rw [request_ticket, request_ticket, h.nextTicket_eq]

theorem request (h : l.Alike f l') (hf : Increasing f) (key : Key) :
    (l.request key).2.Alike f (l'.request key).2 where
  spots := by
    intro t
    rw [spot?_request, spot?_request, ← h.nextTicket_eq, h.spots]
    simp only [hf.eq_iff]
  next := by
    intro n
    rw [nextTicket_request, nextTicket_request, Nat.add_assoc, Nat.add_assoc, h.next]

theorem asks_iff (h : l.Alike f l') {k : Key} : l'.Asks t k ↔ l.Asks (f t) k := by
  rw [asks_iff_spot, asks_iff_spot, h.spots]

theorem granted (h : l.Alike f l') (hf : Increasing f) (o : l.Orderly) (o' : l'.Orderly)
    (hg : l.stage? (f t) = some .granted) : l'.stage? t = some .granted := by
  obtain ⟨k, hspot, hfirst⟩ := o.granted_iff.1 hg
  rw [← h.spots] at hspot
  exact o'.granted_iff.2 ⟨k, hspot, fun s hs ha => hfirst (f s) (hf hs) (h.asks_iff.1 ha)⟩

theorem take (h : l.Alike f l') (hf : Increasing f) (hg : l.stage? (f t) = some .granted)
    (hg' : l'.stage? t = some .granted) : (l.take (f t)).Alike f (l'.take t) where
  spots := by
    intro s
    rw [spot?_take hg, spot?_take hg', h.spots, h.spots]
    simp only [hf.eq_iff]
  next := by
    intro n
    rw [nextTicket_take, nextTicket_take, h.next]

theorem release (h : l.Alike f l') (hf : Increasing f) (t : Nat) :
    (l.release (f t)).Alike f (l'.release t) where
  spots := by
    intro s
    rw [spot?_release, spot?_release, h.spots]
    simp only [hf.eq_iff]
  next := by
    intro n
    rw [nextTicket_release, nextTicket_release, h.next]

end Alike

/-! ### Without one call -/

theorem spot?_of_le (v : l.Valid) (h : l.nextTicket ≤ t) : l.spot? t = none := by
  unfold spot?
  cases hc : l.calls.get? t with
  | none => rfl
  | some c => exact absurd (v.called hc) (Nat.not_lt_of_le h)

theorem Valid.alike_request (v : l.Valid) (key : Key) :
    (l.request key).2.Alike (past l.nextTicket) l where
  spots := by
    intro t
    rw [spot?_request, if_neg (past_ne _ t)]
    rcases Nat.lt_or_ge t l.nextTicket with h | h
    · rw [past_of_lt h]
    · rw [past_of_le h, spot?_of_le v h, spot?_of_le v (Nat.le_succ_of_le h)]
  next := by
    intro n
    rw [nextTicket_request, past_of_le (Nat.le_add_right _ _)]
    omega

end KeyedLock

/-! ## Tasks -/

def Cycle.rename (f : Nat → Nat) (y : Cycle) : Cycle := { y with ticket := f y.ticket }

def Replay.Stage.rename (f : Nat → Nat) : Stage → Stage
  | .listing unseen => .listing unseen
  | .visiting => .visiting
  | .locking key ticket => .locking key (f ticket)
  | .reaching key ticket generation e => .reaching key (f ticket) generation e
  | .pacing key ticket push => .pacing key (f ticket) push
  | .ended => .ended

def Replay.rename (f : Nat → Nat) (r : Replay) : Replay := { r with stage := r.stage.rename f }

def Activity.rename (f : Nat → Nat) : Activity → Activity
  | .cycle y => .cycle (y.rename f)
  | .replay r => .replay (r.rename f)

theorem Cycle.rename_past {y : Cycle} (h : y.ticket < n) : y.rename (past n) = y := by
  rw [Cycle.rename, past_of_lt h]

theorem Replay.rename_past {r : Replay} (h : ∀ t, r.ticket? = some t → t < n) :
    r.rename (past n) = r := by
  obtain ⟨node, rest, count, stage⟩ := r
  cases stage with
  | listing | visiting | ended => rfl
  | reaching key t g e => simp only [Replay.rename, Replay.Stage.rename, past_of_lt (h t rfl)]
  | locking key t => simp only [Replay.rename, Replay.Stage.rename, past_of_lt (h t rfl)]
  | pacing key t push => simp only [Replay.rename, Replay.Stage.rename, past_of_lt (h t rfl)]

theorem Activity.rename_id (a : Activity) : a.rename id = a := by
  cases a with
  | cycle y => rfl
  | replay r =>
    obtain ⟨node, rest, count, stage⟩ := r
    cases stage <;> rfl

theorem Collector.replayed?_rename (c : Collector) (l : KeyedLock) (s : Replay) (key : Key) :
    Collector.replayed? { c with locks := l } s key = c.replayed? (s.rename f) key := rfl

theorem Activity.eq_rename_cycle {a : Activity} {y : Cycle} (h : .cycle y = a.rename f) :
    ∃ z, a = .cycle z ∧ y = z.rename f := by
  cases a with
  | cycle z =>
    cases h
    exact ⟨z, rfl, rfl⟩
  | replay s => contradiction

theorem Activity.eq_rename_replay {a : Activity} {r : Replay} (h : .replay r = a.rename f) :
    ∃ s, a = .replay s ∧ r = s.rename f := by
  cases a with
  | cycle z => contradiction
  | replay s =>
    cases h
    exact ⟨s, rfl, rfl⟩

section Moves

variable {c c' : Collector} {hub hub' : Hub Event} {l : KeyedLock} {y' z : Cycle} {r' s : Replay}

theorem Collector.CycleStep.alike {m : Cycle.Move} (hf : Increasing f) (o : c.locks.Orderly)
    (o' : l.Orderly) (ha : c.locks.Alike f l)
    (h : c.CycleStep hub (z.rename f) m y' c' hub') : ∃ z' l', y' = z'.rename f ∧
      Collector.CycleStep { c with locks := l } hub z m z' { c' with locks := l' } hub' ∧
      c'.locks.Alike f l' := by
  have hreleased := ha.release hf z.ticket
  cases h with
  | lock cancelled hs hg =>
    have hg' := ha.granted hf o o' hg
    have htaken := ha.take hf hg hg'
    cases cancelled
    · exact ⟨_, _, rfl, .lock false hs hg', htaken⟩
    · exact ⟨_, _, rfl, .lock true hs hg', htaken.release hf z.ticket⟩
  | fetch answer hs =>
    have hstep : Collector.CycleStep { c with locks := l } hub z (.fetch answer) _ _ hub :=
      .fetch answer hs
    rcases answer with e | _ | object
    · exact ⟨_, _, rfl, hstep, hreleased⟩
    · simp only [Collector.fetched, Cycle.rename] at hstep ⊢
      cases hcached : c.cache.get? z.key with
      | none =>
        rw [hcached] at hstep
        exact ⟨_, _, rfl, hstep, hreleased⟩
      | some e =>
        rw [hcached] at hstep
        exact ⟨_, _, rfl, hstep, ha⟩
    · exact ⟨_, _, rfl, hstep, ha⟩
  | resolve object prior answer hs =>
    cases answer
    · exact ⟨_, _, rfl, .resolve object prior _ hs, hreleased⟩
    · exact ⟨_, _, rfl, .resolve object prior _ hs, ha⟩
  | cancel hs => exact ⟨_, _, rfl, .cancel hs, hreleased⟩
  | commit hadPrior step cancelled hs =>
    cases cancelled
    · exact ⟨_, _, rfl, .commit hadPrior step false hs, ha⟩
    · exact ⟨_, _, rfl, .commit hadPrior step true hs, hreleased⟩
  | miss events e rest hs hnone =>
    exact ⟨{ z with stage := .pushing events rest }, l, rfl, .miss events e rest hs hnone, ha⟩
  | find events e rest g s hs hc =>
    exact ⟨{ z with stage := .offering events g e rest }, l, rfl, .find events e rest g s hs hc, ha⟩
  | offer events g e rest hs =>
    exact ⟨{ z with stage := .pushing events rest }, l, rfl, .offer events g e rest hs, ha⟩
  | finish events hs => exact ⟨_, _, rfl, .finish events hs, hreleased⟩

theorem Collector.visit_alike (hf : Increasing f) (ha : c.locks.Alike f l) (cancelled : Bool) :
    ∃ s' l', (c.visit (s.rename f) cancelled).1 = s'.rename f ∧
      Collector.visit { c with locks := l } s cancelled =
        (s', { (c.visit (s.rename f) cancelled).2 with locks := l' }) ∧
      (c.visit (s.rename f) cancelled).2.locks.Alike f l' := by
  unfold Collector.visit
  cases cancelled with
  | true => exact ⟨_, _, rfl, rfl, ha⟩
  | false =>
    cases hrest : s.rest with
    | nil =>
      simp only [Replay.rename, hrest]
      exact ⟨_, _, rfl, rfl, ha⟩
    | cons key rest =>
      simp only [Replay.rename, hrest]
      refine ⟨_, _, ?_, rfl, ha.request hf key⟩
      rw [ha.ticket_eq key]
      rfl

theorem Collector.replayLocked_alike {t : Nat} (hf : Increasing f) (o : c.locks.Orderly)
    (o' : l.Orderly) (ha : c.locks.Alike f l) (hub : Hub Event) (key : Key)
    (hg : c.locks.stage? (f t) = some .granted) :
    ∃ s' l', (c.replayLocked hub (s.rename f) key (f t)).1 = s'.rename f ∧
      Collector.replayLocked { c with locks := l } hub s key t =
        (s', { (c.replayLocked hub (s.rename f) key (f t)).2.1 with locks := l' },
          (c.replayLocked hub (s.rename f) key (f t)).2.2) ∧
      (c.replayLocked hub (s.rename f) key (f t)).2.1.locks.Alike f l' := by
  have htaken := ha.take hf hg (ha.granted hf o o' hg)
  unfold Collector.replayLocked Collector.replayed?
  simp only [Replay.rename]
  cases (Option.filter (fun e => e.isAssociatedWith s.node) (c.cache.get? key)).map
    (fun e => e.eventFor key s.node .added) with
  | none => exact ⟨{ s with stage := .visiting }, _, rfl, rfl, htaken.release hf t⟩
  | some e =>
    dsimp only
    rcases hub.connection? e.node with _ | ⟨g, stream⟩
    · exact ⟨{ s with stage := .ended }, _, rfl, rfl, htaken.release hf t⟩
    · exact ⟨{ s with stage := .reaching key t g e }, _, rfl, rfl, htaken⟩

theorem Collector.list?_alike {unseen : List Key} {key : Key}
    (h : c.list? (s.rename f) unseen key = some r') : ∃ s', r' = s'.rename f ∧
      Collector.list? { c with locks := l } s unseen key = some s' := by
  unfold Collector.list? at h
  split at h
  · next entry he =>
    obtain ⟨hnew, h⟩ := Option.ite_none_left_eq_some.1 h
    cases h
    refine ⟨{ s with rest := s.rest ++ [key], stage := .listing (unseen.erase key) }, rfl, ?_⟩
    have hnew' : key ∉ s.rest := hnew
    simp only [list?, he, if_neg hnew']
  · next he =>
    obtain ⟨hmem, h⟩ := Option.ite_none_right_eq_some.1 h
    cases h
    refine ⟨{ s with stage := .listing (unseen.erase key) }, rfl, ?_⟩
    simp only [list?, he, if_pos hmem]

theorem Collector.replayPushed_alike (hf : Increasing f) (ha : c.locks.Alike f l) (t : Nat)
    (outcome : Hub.Outcome) :
    ∃ s' l', (c.replayPushed (s.rename f) (f t) outcome).1 = s'.rename f ∧
      Collector.replayPushed { c with locks := l } s t outcome =
        (s', { (c.replayPushed (s.rename f) (f t) outcome).2 with locks := l' }) ∧
      (c.replayPushed (s.rename f) (f t) outcome).2.locks.Alike f l' := by
  cases outcome with
  | ok u => exact ⟨{ s with count := s.count + 1, stage := .visiting }, _, rfl, rfl,
      ha.release hf t⟩
  | error e => exact ⟨{ s with stage := .ended }, _, rfl, rfl, ha.release hf t⟩

theorem Collector.moveReplay_alike {m : Replay.Move} (hf : Increasing f) (o : c.locks.Orderly)
    (o' : l.Orderly) (ha : c.locks.Alike f l)
    (h : c.moveReplay hub (s.rename f) m = some (r', c', hub')) : ∃ s' l', r' = s'.rename f ∧
      Collector.moveReplay { c with locks := l } hub s m =
        some (s', { c' with locks := l' }, hub') ∧ c'.locks.Alike f l' := by
  have hstage : (s.rename f).stage = s.stage.rename f := rfl
  have hvisit : ∀ cancelled, some ((c.visit (s.rename f) cancelled).1,
      (c.visit (s.rename f) cancelled).2, hub) = some (r', c', hub') →
      ∃ s' l', r' = s'.rename f ∧ Collector.visit { c with locks := l } s cancelled =
        (s', { c' with locks := l' }) ∧ hub = hub' ∧ c'.locks.Alike f l' := by
    intro cancelled h
    simp only [Option.some.injEq, Prod.mk.injEq] at h
    obtain ⟨rfl, rfl, rfl⟩ := h
    obtain ⟨s', l', hr, hv, hl⟩ := Collector.visit_alike hf ha cancelled
    exact ⟨s', l', hr, hv, rfl, hl⟩
  cases hs : s.stage with
  | ended =>
    rw [hs, Replay.Stage.rename] at hstage
    simp [moveReplay, hstage] at h
  | listing unseen =>
    rw [hs, Replay.Stage.rename] at hstage
    cases m with
    | list key =>
      simp only [moveReplay, hstage] at h
      obtain ⟨r1, hlist, h⟩ := Option.map_eq_some_iff.1 h
      cases h
      obtain ⟨s', hr, hlist'⟩ := Collector.list?_alike (l := l) hlist
      exact ⟨s', l, hr, by simp [moveReplay, hs, hlist'], ha⟩
    | visit cancelled =>
      cases unseen with
      | nil =>
        simp only [moveReplay, hstage] at h
        obtain ⟨s', l', hr, hv, rfl, hl⟩ := hvisit cancelled h
        exact ⟨s', l', hr, by simp [moveReplay, hs, hv], hl⟩
      | cons => simp [moveReplay, hstage] at h
    | lock | reserve | resume | expire | cancel => simp [moveReplay, hstage] at h
  | visiting =>
    rw [hs, Replay.Stage.rename] at hstage
    cases m with
    | visit cancelled =>
      simp only [moveReplay, hstage] at h
      obtain ⟨s', l', hr, hv, rfl, hl⟩ := hvisit cancelled h
      exact ⟨s', l', hr, by simp [moveReplay, hs, hv], hl⟩
    | list | lock | reserve | resume | expire | cancel => simp [moveReplay, hstage] at h
  | locking key t =>
    rw [hs, Replay.Stage.rename] at hstage
    cases m with
    | lock =>
      simp only [moveReplay, hstage, Option.ite_none_right_eq_some, Option.some.injEq] at h
      obtain ⟨hg, h⟩ := h
      obtain ⟨s', l', hr, hv, hl⟩ := Collector.replayLocked_alike (s := s) hf o o' ha hub key hg
      rw [h] at hr hv hl
      exact ⟨s', l', hr, by simp [moveReplay, hs, hv, ha.granted hf o o' hg], hl⟩
    | cancel =>
      simp only [moveReplay, hstage, Option.ite_none_right_eq_some, Option.some.injEq] at h
      obtain ⟨⟨hg, he⟩, h⟩ := h
      cases h
      have hg' := ha.granted hf o o' hg
      rw [← Collector.replayed?_rename (l := l)] at he
      exact ⟨{ s with stage := .ended }, _, rfl, by simp [moveReplay, hs, hg', he, replayStopped,
        release], (ha.take hf hg hg').release hf t⟩
    | list | visit | reserve | resume | expire => simp [moveReplay, hstage] at h
  | reaching key t g e =>
    rw [hs, Replay.Stage.rename] at hstage
    cases m with
    | reserve =>
      simp only [moveReplay, hstage, Option.some.injEq] at h
      cases h
      exact ⟨{ s with stage := .pacing key t (hub.reserve g e).1 }, l, rfl,
        by simp [moveReplay, hs], ha⟩
    | list | visit | lock | resume | expire | cancel => simp [moveReplay, hstage] at h
  | pacing key t push =>
    rw [hs, Replay.Stage.rename] at hstage
    cases m with
    | resume =>
      simp only [moveReplay, hstage] at h
      obtain ⟨⟨outcome, hub1⟩, hresume, h⟩ := Option.map_eq_some_iff.1 h
      cases h
      obtain ⟨s', l', hr, hv, hl⟩ := Collector.replayPushed_alike (s := s) hf ha t outcome
      exact ⟨s', l', hr, by simp [moveReplay, hs, hresume, hv], hl⟩
    | expire =>
      simp only [moveReplay, hstage, Option.ite_none_left_eq_some, Option.some.injEq] at h
      obtain ⟨hno, h⟩ := h
      cases h
      obtain ⟨s', l', hr, hv, hl⟩ :=
        Collector.replayPushed_alike (s := s) hf ha t (hub.expire push).1
      exact ⟨s', l', hr, by simp [moveReplay, hs, hno, hv], hl⟩
    | cancel =>
      simp only [moveReplay, hstage, Option.some.injEq] at h
      cases h
      exact ⟨{ s with stage := .ended }, _, rfl,
        by simp [moveReplay, hs, replayCancelled, release], ha.release hf t⟩
    | list | visit | lock | reserve => simp [moveReplay, hstage] at h

/-- To those who do not count its call, a cycle leaves the locks as they are. -/
theorem Collector.CycleStep.alike_past {y y' : Cycle} {m : Cycle.Move}
    (h : c.CycleStep hub y m y' c' hub') (ha : c.locks.Alike (past y.ticket) l) :
    c'.locks.Alike (past y.ticket) l where
  spots := by
    intro t
    rw [ha.spots, h.spot?_eq (past_ne y.ticket t)]
  next := by
    intro n
    rw [h.nextTicket_eq, ha.next]

end Moves

end Nodecast
