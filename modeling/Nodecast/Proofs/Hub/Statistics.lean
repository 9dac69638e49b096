import Nodecast.Proofs.Hub.Chronicle

/-!
# What is told of a subscriber

The statistics of a connected node count what its stream has delivered. As pending they count the
room that is taken, and so also the room that paced pushes hold for items still to come.
-/

namespace Nodecast.Hub

variable {α : Type} {h : Hub α} {node : String} {g : Nat} {s : Stream α}

/-! ## Room that is held -/

theorem Stream.gathered_eq_zero {ps : List (Paced α)} :
    gathered ps = 0 ↔ ∀ p ∈ ps, p.gathered = 0 := by
  induction ps with
  | nil => simp
  | cons p rest ih =>
    rw [gathered_cons, Nat.add_eq_zero_iff, ih, List.forall_mem_cons]

/-- Somebody who waits holds room, unless items take it all. -/
theorem Stream.Valid.reserved_eq_zero (v : s.Valid) (hl : s.listening = true) :
    s.reserved = 0 ↔ s.paced = [] ∨ s.buffer.length = s.capacity := by
  have hb := v.bounded
  rw [used] at hb
  constructor
  · intro hnone
    cases hp : s.paced with
    | nil => exact Or.inl rfl
    | cons p rest =>
      have hmem : p ∈ s.paced := by simp [hp]
      have hzero : p.gathered = 0 := gathered_eq_zero.1 hnone p hmem
      have hwaits : p.isGranted = false := by
        have hw := (v.wants p hmem).1
        simp only [Paced.isGranted, decide_eq_false_iff_not]
        omega
      have hall := v.greedy hl ⟨p, hmem, hwaits⟩
      rw [used, hnone, Nat.add_zero] at hall
      exact Or.inr hall
  · rintro (hp | hfull)
    · simp [reserved_eq, hp]
    · omega

theorem subscriber?_eq (hc : h.connection? node = some (g, s)) :
    h.subscriber? node = some s.stats := by
  rw [subscriber?, hc]
  rfl

namespace Chronicle

variable {l : Chronicle α}

/-! ## Counts and contents -/

theorem Valid.delivered_eq (v : l.Valid) (hc : l.hub.connection? node = some (g, s)) :
    l.hub.unread? g = some s.buffer ∧
      s.delivered = (receivedBy g l.log).length + s.buffer.length := by
  obtain ⟨hg, hs⟩ := connection?_eq_some.1 hc
  have hunread : l.hub.unread? g = some s.buffer := by
    rw [unread?_eq hs, Stream.unread?, if_pos (v.hub.listens hg hs).2]
  refine ⟨hunread, ?_⟩
  rw [(v.hub.sound hs).counted, ← logOf_eq hs, v.entered g, v.unread g _ hunread,
    List.length_append]

/-- As many items are told to be pending as the subscriber has still to take, and as many to be
delivered as it received or has still to take. -/
def TellsTruth (l : Chronicle α) (node : String) : Prop :=
  ∀ g, l.hub.slots.get? node = some g → ∃ told rest,
    l.hub.subscriber? node = some told ∧ l.hub.unread? g = some rest ∧
      told.pending = rest.length ∧
      told.delivered = (receivedBy g l.log).length + told.pending

/-- What is told of a connected node is the truth exactly if no paced push is under way for its
stream, or items alone fill the queue. What is delivered is always told as it is. What is pending
is told with the room that paced pushes hold, which is all the room there is as long as one of them
still waits for more. -/
theorem Reachable.tellsTruth_iff (hr : l.Reachable)
    (hc : l.hub.connection? node = some (g, s)) :
    (l.TellsTruth node ↔ s.paced = [] ∨ s.buffer.length = s.capacity) ∧
      ∃ told, l.hub.subscriber? node = some told ∧
        told.delivered = (receivedBy g l.log).length + s.buffer.length ∧
        told.pending = s.buffer.length + s.reserved ∧
        ((∃ p ∈ s.paced, p.isGranted = false) → told.pending = s.capacity) := by
  have v := hr.valid
  obtain ⟨hg, hs⟩ := connection?_eq_some.1 hc
  have hl := (v.hub.listens hg hs).2
  have hsound := v.hub.sound hs
  obtain ⟨hunread, hdelivered⟩ := v.delivered_eq hc
  have htold := subscriber?_eq hc
  refine ⟨?_, s.stats, htold, hdelivered, rfl, hsound.greedy hl⟩
  rw [← hsound.reserved_eq_zero hl]
  constructor
  · intro ht
    obtain ⟨told, rest, htold', hrest, hpending, -⟩ := ht g hg
    rw [htold, Option.some.injEq] at htold'
    rw [hunread, Option.some.injEq] at hrest
    rw [← htold', ← hrest] at hpending
    have hused : s.buffer.length + s.reserved = s.buffer.length := hpending
    omega
  · intro hnone g' hg'
    rw [hg, Option.some.injEq] at hg'
    subst hg'
    have hpending : s.stats.pending = s.buffer.length := by
      show s.buffer.length + s.reserved = _
      omega
    exact ⟨s.stats, s.buffer, htold, hunread, hpending, by rw [hpending]; exact hdelivered⟩

/-- The subscriber has received one item of three, and a paced push waits with a fourth. -/
def queueBehind : List (Action Nat) :=
  [.register "a", .push "a" 1, .offer 0, .push "a" 2, .offer 1, .push "a" 3, .offer 2, .receive 1,
    .startPaced "a" 4]

theorem queueBehind_run : ∃ l s,
    ({ hub := { config := { queueCapacity := 4 } } } : Chronicle Nat).run queueBehind = some l ∧
      l.hub.connection? "a" = some (1, s) ∧ s.buffer = [2, 3] ∧ s.capacity = 4 ∧
      s.reserved = 2 :=
  ⟨_, _, rfl, rfl, rfl, rfl, rfl⟩

theorem tellsTruth_iff_queueBehind : ∃ l s,
    ({ hub := { config := { queueCapacity := 4 } } } : Chronicle Nat).run queueBehind = some l ∧
      l.hub.connection? "a" = some (1, s) ∧
      (l.TellsTruth "a" ↔ s.paced = [] ∨ s.buffer.length = s.capacity) := by
  obtain ⟨l, s, hrun, hc, -⟩ := queueBehind_run
  exact ⟨l, s, hrun, hc, (Reachable.tellsTruth_iff ⟨_, _, hrun⟩ hc).1⟩

/-- Two items are left to take, and four are told to be pending. -/
theorem not_tellsTruth_queueBehind : ∃ l,
    ({ hub := { config := { queueCapacity := 4 } } } : Chronicle Nat).run queueBehind = some l ∧
      ¬ l.TellsTruth "a" := by
  obtain ⟨l, s, hrun, hc, hbuffer, -, hreserved⟩ := queueBehind_run
  refine ⟨l, hrun, fun ht => ?_⟩
  have v := Reachable.valid ⟨_, _, hrun⟩
  obtain ⟨told, rest, htold, hrest, hpending, -⟩ := ht 1 (connection?_eq_some.1 hc).1
  rw [subscriber?_eq hc, Option.some.injEq] at htold
  rw [(v.delivered_eq hc).1, Option.some.injEq, hbuffer] at hrest
  rw [← htold, ← hrest] at hpending
  have hused : s.buffer.length + s.reserved = 2 := hpending
  rw [hbuffer, hreserved] at hused
  contradiction

end Chronicle

end Nodecast.Hub
