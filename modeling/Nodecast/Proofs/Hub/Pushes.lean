import Nodecast.Proofs.Hub.Steps

/-!
# Pushes

A push reaches the connected stream, or leaves its node without one. A paced push reaches the
stream it began on, or leaves that stream disconnected.
-/

namespace Nodecast.Hub

variable {α : Type} {h h' : Hub α} {node : String} {g ticket : Nat} {s : Stream α} {item e : α}
  {r : PacedRef} {outcome : Outcome}

/-! ## Offers -/

/-- What becomes of an offer. -/
inductive Offered (h : Hub α) (node : String) (g : Nat) (item : α) : Outcome → Hub α → Prop where
  | accepted {s : Stream α} (hs : h.streams.get? g = some s) (hl : s.listening = true)
      (hfree : 0 < s.free) :
      Offered h node g item (.ok ())
        (h.setStream g { s with log := s.log ++ [item], delivered := s.delivered + 1 })
  | evicted {s : Stream α} (hs : h.streams.get? g = some s) (hfull : s.free = 0) :
      Offered h node g item (.error (.queueFull node h.config.queueCapacity))
        ({ h with droppedQueueFull := h.droppedQueueFull + 1 }.disconnect node g)
  | closed (hgone : ∀ s, h.streams.get? g = some s → s.listening = false) :
      Offered h node g item (.error (.notConnected node))
        ({ h with droppedNotConnected := h.droppedNotConnected + 1 }.disconnect node g)

theorem offered (h : Hub α) (node : String) (g : Nat) (item : α) :
    Offered h node g item (h.offer node g item).1 (h.offer node g item).2 := by
  unfold offer
  cases hf : (h.streams.get? g).filter Stream.listening with
  | none =>
    refine .closed fun s hs => ?_
    rw [hs, Option.filter_some] at hf
    simpa using hf
  | some s =>
    obtain ⟨hs, hl⟩ := Option.filter_eq_some_iff.1 hf
    by_cases hfree : 0 < s.free
    · simp only [Stream.send?, if_pos hfree]
      exact .accepted hs hl hfree
    · simp only [Stream.send?, if_neg hfree]
      exact .evicted hs (Nat.eq_zero_of_not_pos hfree)

theorem Valid.enqueue (v : h.Valid) (hs : h.streams.get? g = some s) (hfree : 0 < s.free)
    (item : α) :
    Moves h (h.setStream g { s with log := s.log ++ [item], delivered := s.delivered + 1 })
      (some (g, item)) none := by
  have hsend : s.send? item =
      some { s with log := s.log ++ [item], delivered := s.delivered + 1 } := by
    simp only [Stream.send?, if_pos hfree]
  exact v.moves_of_stream (some item) hs ((v.sound hs).send hsend) rfl rfl rfl
    (fun hg => (v.listens hg hs).2) (fun p hp => v.asked hs p hp) (Nat.le_refl _)
    (fun _ _ _ he => he)

theorem Valid.offer (v : h.Valid) (node : String) (g : Nat) (item : α) :
    ∃ sent, Moves h (h.offer node g item).2 sent none ∧
      ((h.offer node g item).1 = .ok () ∧ sent = some (g, item) ∨
        (∃ failure, (h.offer node g item).1 = .error failure) ∧ sent = none ∧
          (h.offer node g item).2.slots.get? node ≠ some g) := by
  generalize ho : h.offer node g item = x
  have hoffered := offered h node g item
  rw [ho] at hoffered
  obtain ⟨outcome, h'⟩ := x
  cases hoffered with
  | accepted hs hl hfree => exact ⟨some (g, item), v.enqueue hs hfree item, Or.inl ⟨rfl, rfl⟩⟩
  | evicted =>
    have m : Moves h { h with droppedQueueFull := h.droppedQueueFull + 1 } none none :=
      v.moves_of_streams rfl rfl id rfl rfl
    exact ⟨none, m.trans (m.valid.disconnect node g), Or.inr ⟨⟨_, rfl⟩, rfl, disconnect_slot _ _ _⟩⟩
  | closed =>
    have m : Moves h { h with droppedNotConnected := h.droppedNotConnected + 1 } none none :=
      v.moves_of_streams rfl rfl id rfl rfl
    exact ⟨none, m.trans (m.valid.disconnect node g), Or.inr ⟨⟨_, rfl⟩, rfl, disconnect_slot _ _ _⟩⟩

/-! ## Pushes at once -/

theorem push_of_room (v : h.Valid) (hc : h.connection? node = some (g, s)) (hf : 0 < s.free)
    (item : α) : h.push node item =
      (.ok (), h.setStream g { s with log := s.log ++ [item], delivered := s.delivered + 1 }) := by
  obtain ⟨hg, hs⟩ := connection?_eq_some.1 hc
  have hl : (h.streams.get? g).filter Stream.listening = some s := by
    rw [hs, Option.filter_some, if_pos (v.listens hg hs).2]
  simp only [push, hc, offer, hl, Stream.send?, if_pos hf]

theorem push_of_full (v : h.Valid) (hc : h.connection? node = some (g, s)) (hf : s.free = 0)
    (item : α) : h.push node item =
      (.error (.queueFull node h.config.queueCapacity),
        disconnect { h with droppedQueueFull := h.droppedQueueFull + 1 } node g) := by
  obtain ⟨hg, hs⟩ := connection?_eq_some.1 hc
  have hl : (h.streams.get? g).filter Stream.listening = some s := by
    rw [hs, Option.filter_some, if_pos (v.listens hg hs).2]
  simp only [push, hc, offer, hl, Stream.send?, hf, Nat.lt_irrefl, if_false, evict]

theorem Valid.push (v : h.Valid) (node : String) (item : α) :
    ∃ sent, Moves h (h.push node item).2 sent none := by
  unfold Hub.push
  cases hc : h.connection? node with
  | none => exact ⟨none, v.refuse node⟩
  | some c =>
    obtain ⟨sent, m, -⟩ := v.offer node c.1 item
    exact ⟨sent, m⟩

/-! ## Paced pushes -/

theorem item?_eq_some (hi : h.item? r = some e) :
    ∃ s, h.streams.get? r.generation = some s ∧ s.item? r.ticket = some e :=
  Option.bind_eq_some_iff.1 hi

theorem Valid.item?_lt (v : h.Valid) (hi : h.item? r = some e) : r.ticket < h.nextTicket := by
  obtain ⟨s, hs, hi⟩ := item?_eq_some hi
  obtain ⟨p, hp, -⟩ := Stream.item?_iff.1 hi
  obtain ⟨hm, ht⟩ := Stream.paced?_mem hp
  exact ht ▸ v.asked hs p hm

theorem reserve_eq (hs : h.streams.get? g = some s) (item : α) :
    h.reserve g item = (⟨g, h.nextTicket⟩,
      { h.setStream g (s.startPaced h.nextTicket item) with nextTicket := h.nextTicket + 1 }) := by
  simp only [reserve, Table.modify, hs, setStream]

theorem Valid.reserve (v : h.Valid) (hs : h.streams.get? g = some s) (item : α) :
    Moves h (h.reserve g item).2 none none ∧
      (h.reserve g item).2.item? (h.reserve g item).1 = some item := by
  have hnew : ∀ p ∈ s.paced, p.ticket ≠ h.nextTicket := fun p hp =>
    Nat.ne_of_lt (v.asked hs p hp)
  have hasked : ∀ p ∈ (s.startPaced h.nextTicket item).paced, p.ticket < h.nextTicket + 1 := by
    apply Stream.asked_dealFree
    intro p hp
    rcases List.mem_append.1 hp with hp | hp
    · exact Nat.lt_succ_of_lt (v.asked hs p hp)
    · rw [List.mem_singleton.1 hp]
      exact Nat.lt_succ_self _
  rw [reserve_eq hs]
  refine ⟨?_, ?_⟩
  · refine v.moves_of_stream none hs ((v.sound hs).startPaced hnew) rfl rfl ?_
      (fun hg => (v.listens hg hs).2) hasked (Nat.le_succ _) ?_
    · simp [Stream.startPaced, Stream.dealFree]
    · intro t e _ he
      have ht : t ≠ h.nextTicket := by
        obtain ⟨p, hp, -⟩ := Stream.item?_iff.1 he
        obtain ⟨hm, rfl⟩ := Stream.paced?_mem hp
        exact hnew p hm
      rw [Stream.item?_startPaced_of_ne s item ht, he]
  · simp only [item?, setStream, Table.get?_insert_self, Option.bind_some]
    exact Stream.item?_startPaced item hnew

theorem Valid.startPaced (v : h.Valid) (node : String) (item : α) :
    Moves h (h.startPaced node item).2 none none ∧
      ((∃ failure, (h.startPaced node item).1 = .error failure) ∧ h.slots.get? node = none ∨
        ∃ r, (h.startPaced node item).1 = .ok r ∧ h.slots.get? node = some r.generation ∧
          h.nodeOf r.generation = some node ∧ r.ticket = h.nextTicket ∧
          (h.startPaced node item).2.item? r = some item) := by
  unfold Hub.startPaced
  cases hc : h.connection? node with
  | none =>
    exact ⟨v.refuse node, Or.inl ⟨⟨_, rfl⟩, v.connection?_eq_none hc⟩⟩
  | some c =>
    obtain ⟨g, s⟩ := c
    obtain ⟨hg, hs⟩ := connection?_eq_some.1 hc
    obtain ⟨m, hi⟩ := v.reserve hs item
    exact ⟨m, Or.inr ⟨_, rfl, hg, nodeOf_eq_some.2 ⟨s, hs, (v.listens hg hs).1⟩, rfl, hi⟩⟩

theorem Valid.startPaced_ok (v : h.Valid) (hp : h.startPaced node item = (.ok r, h')) :
    Moves h h' none none ∧ h.slots.get? node = some r.generation ∧
      h.nodeOf r.generation = some node ∧ r.ticket = h.nextTicket ∧ h'.item? r = some item := by
  obtain ⟨m, ⟨⟨_, hf⟩, -⟩ | ⟨r', hok, hr⟩⟩ := v.startPaced node item
  · rw [hp] at hf
    contradiction
  · rw [hp] at m hok hr
    cases hok
    exact ⟨m, hr⟩

theorem Valid.withdraw (v : h.Valid) (hs : h.streams.get? g = some s) (ticket : Nat) :
    Moves h (h.setStream g (s.withdraw ticket)) none (some ⟨g, ticket⟩) := by
  refine v.moves_of_stream none hs ((v.sound hs).withdraw ticket) rfl rfl ?_ ?_
    (Stream.asked_withdraw (v.asked hs) ticket) (Nat.le_refl _) ?_
  · simp [Stream.withdraw, Stream.dealFree]
  · exact fun hg => (v.listens hg hs).2
  · intro t e ht he
    have ht' : t ≠ ticket := fun h => ht (by rw [h])
    rw [Stream.item?_withdraw_of_ne s ht', he]

theorem Moves.withdraw_disconnect (m : Moves h h' none none) (hsame : h'.streams = h.streams)
    (hs : h.streams.get? g = some s) (ticket : Nat) :
    Moves h ((h'.setStream g (s.withdraw ticket)).disconnect s.node g) none (some ⟨g, ticket⟩) := by
  rw [disconnect_setStream]
  have m' := m.trans (m.valid.disconnect s.node g)
  refine m'.trans (m'.valid.withdraw ?_ ticket)
  rw [disconnect_streams, hsame, hs]

theorem Valid.sendPaced (v : h.Valid) (hs : h.streams.get? g = some s) {p : Paced α}
    (hp : s.paced? ticket = some p) (hgranted : p.isGranted = true) :
    Moves h (h.setStream g (s.sendPaced p)) (some (g, p.item)) (some ⟨g, ticket⟩) := by
  obtain ⟨hm, rfl⟩ := Stream.paced?_mem hp
  refine v.moves_of_stream (some p.item) hs ((v.sound hs).sendPaced hm hgranted) rfl rfl
    rfl (fun hg => (v.listens hg hs).2) ?_ (Nat.le_refl _) ?_
  · exact Stream.asked_withdraw
      (s := { s with log := s.log ++ [p.item], delivered := s.delivered + 1 })
      (fun q hq => v.asked hs q hq) p.ticket
  · intro t e ht he
    have ht' : t ≠ p.ticket := fun h => ht (by rw [h])
    rw [Stream.sendPaced, Stream.item?_withdraw_of_ne _ ht']
    exact he

theorem item?_of_resume? (hr : h.resume? r = some (.ok (), h')) : ∃ e, h.item? r = some e := by
  obtain ⟨s, hs, hr⟩ := Option.bind_eq_some_iff.1 hr
  split at hr
  · obtain ⟨p, hp, -⟩ := Option.map_eq_some_iff.1 hr
    obtain ⟨hp, -⟩ := Option.filter_eq_some_iff.1 hp
    refine ⟨p.item, ?_⟩
    simp only [item?, hs, Option.bind_some]
    exact Stream.item?_iff.2 ⟨p, hp, rfl⟩
  · cases hr

/-- A paced push that is over has sent its item, or its stream is disconnected. -/
theorem Valid.resume (v : h.Valid) (hr : h.resume? r = some (outcome, h')) :
    ∃ sent, Moves h h' sent (some r) ∧
      (outcome = .ok () ∧ (∃ e, h.item? r = some e ∧ sent = some (r.generation, e)) ∨
        (∃ failure, outcome = .error failure) ∧ sent = none ∧
          ∀ n, h.nodeOf r.generation = some n → h'.slots.get? n ≠ some r.generation) := by
  obtain ⟨s, hs, hr⟩ := Option.bind_eq_some_iff.1 hr
  split at hr
  · obtain ⟨p, hp, he⟩ := Option.map_eq_some_iff.1 hr
    obtain ⟨hp, hgranted⟩ := Option.filter_eq_some_iff.1 hp
    cases he
    refine ⟨_, v.sendPaced hs hp hgranted, Or.inl ⟨rfl, p.item, ?_, rfl⟩⟩
    simp only [item?, hs, Option.bind_some]
    exact Stream.item?_iff.2 ⟨p, hp, rfl⟩
  · cases hr
    refine ⟨none, (v.refuse s.node).withdraw_disconnect rfl hs r.ticket, Or.inr ⟨⟨_, rfl⟩, rfl, ?_⟩⟩
    intro n hn
    rw [nodeOf_eq hs, Option.some.injEq] at hn
    rw [← hn]
    exact disconnect_slot _ _ _

theorem Valid.resume_ok (v : h.Valid) (hr : h.resume? r = some (.ok (), h'))
    (hi : h.item? r = some e) : Moves h h' (some (r.generation, e)) (some r) := by
  obtain ⟨sent, m, ⟨-, e', hi', rfl⟩ | ⟨⟨_, hf⟩, -⟩⟩ := v.resume hr
  · rw [hi, Option.some.injEq] at hi'
    rwa [hi']
  · contradiction

theorem Valid.resume_error (v : h.Valid) {failure : DeliveryError}
    (hr : h.resume? r = some (.error failure, h')) : Moves h h' none (some r) ∧
      ∀ n, h.nodeOf r.generation = some n → h'.slots.get? n ≠ some r.generation := by
  obtain ⟨sent, m, ⟨hok, -⟩ | ⟨-, rfl, hgone⟩⟩ := v.resume hr
  · contradiction
  · exact ⟨m, hgone⟩

theorem Valid.expire (v : h.Valid) (hi : h.item? r = some e) :
    Moves h (h.expire r).2 none (some r) ∧ (∃ failure, (h.expire r).1 = .error failure) ∧
      ∀ n, h.nodeOf r.generation = some n → (h.expire r).2.slots.get? n ≠ some r.generation := by
  obtain ⟨s, hs, -⟩ := item?_eq_some hi
  unfold Hub.expire
  simp only [hs]
  have m : Moves h { h with droppedQueueFull := h.droppedQueueFull + 1 } none none :=
    v.moves_of_streams rfl rfl id rfl rfl
  refine ⟨m.withdraw_disconnect rfl hs r.ticket, ⟨_, rfl⟩, ?_⟩
  intro n hn
  rw [nodeOf_eq hs, Option.some.injEq] at hn
  rw [← hn]
  exact disconnect_slot _ _ _

theorem Valid.abandon (v : h.Valid) (r : PacedRef) : Moves h (h.abandon r) none (some r) := by
  unfold Hub.abandon
  split
  · next hs =>
    refine { v.moves_of_streams rfl rfl id rfl rfl with item := ?_ }
    exact fun _ he => he
  · next s hs => exact v.withdraw hs r.ticket

/-! ## The subscriber's side -/

theorem Valid.receive (v : h.Valid) (g : Nat) : Moves h (h.receive g).2 none none := by
  unfold Hub.receive
  split
  · exact v.moves_of_streams rfl rfl id rfl rfl
  · next s hs =>
    have hkeep : s.receive.2.node = s.node ∧ s.receive.2.capacity = s.capacity ∧
        s.receive.2.log = s.log ∧ s.receive.2.listening = s.listening := by
      unfold Stream.receive
      split <;> exact ⟨rfl, rfl, rfl, rfl⟩
    obtain ⟨hnode, hcapacity, hlog, hlisten⟩ := hkeep
    refine v.moves_of_stream none hs (v.sound hs).receive hnode hcapacity ?_ ?_ ?_
      (Nat.le_refl _) ?_
    · simp [hlog]
    · exact fun hg => hlisten.trans (v.listens hg hs).2
    · unfold Stream.receive
      split
      · exact fun p hp => v.asked hs p hp
      · exact Stream.asked_dealFree (s := { s with taken := s.taken + 1 })
          fun p hp => v.asked hs p hp
    · intro t e _ he
      unfold Stream.receive
      split
      · exact he
      · rw [Stream.item?_dealFree]
        exact he

end Nodecast.Hub
