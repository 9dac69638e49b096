import Nodecast.Proofs.Hub.Chronicle

/-!
# Paced pushes

A paced push gathers room for its item and for half the queue on top. It ends in one of three ways:
it queues its item and leaves half the queue free, it finds that nobody listens, or its time is up.
-/

namespace Nodecast.Hub

variable {α : Type} {h h' : Hub α} {r : PacedRef} {outcome : Outcome} {ticket : Nat}

namespace Stream

variable {s s' : Stream α} {p : Paced α}

/-! ## Room that is given back -/

theorem exists_mem_deal {ps : List (Paced α)} (room : Nat) (hp : p ∈ ps) :
    ∃ p' ∈ deal room ps, p'.ticket = p.ticket ∧ p'.item = p.item ∧ p.gathered ≤ p'.gathered := by
  induction ps generalizing room with
  | nil => contradiction
  | cons q rest ih =>
    rcases List.mem_cons.1 hp with rfl | hp
    · exact ⟨_, List.mem_cons_self, rfl, rfl, Nat.le_add_right _ _⟩
    · obtain ⟨p', hp', h⟩ := ih (room - min room (q.wanted - q.gathered)) hp
      exact ⟨p', List.mem_cons_of_mem _ hp', h⟩

theorem Valid.free_add_reserved (v : s.Valid) :
    s.free + s.reserved = s.capacity - s.buffer.length := by
  have hb := v.bounded
  rw [used] at hb
  rw [free, used]
  omega

/-- The push with this ticket is gone and has left its room to the others. The items are as they
were. -/
structure LetsGo (s s' : Stream α) (ticket : Nat) : Prop where
  log : s'.log = s.log
  buffer : s'.buffer = s.buffer
  tickets : s'.paced.map Paced.ticket = (s.paced.map Paced.ticket).filter (· ≠ ticket)
  room : s'.free + s'.reserved = s.free + s.reserved
  others : ∀ p ∈ s.paced, p.ticket ≠ ticket →
    ∃ p' ∈ s'.paced, p'.ticket = p.ticket ∧ p'.item = p.item ∧ p.gathered ≤ p'.gathered

theorem Valid.letsGo (v : s.Valid) (ticket : Nat) : s.LetsGo (s.withdraw ticket) ticket where
  log := rfl
  buffer := rfl
  tickets := by
    rw [Stream.withdraw, dealFree, tickets_deal, List.filter_map]
    rfl
  room := by rw [v.free_add_reserved, (v.withdraw ticket).free_add_reserved]; rfl
  others := by
    intro p hp hne
    exact exists_mem_deal _ (List.mem_filter.2 ⟨hp, by simpa using hne⟩)

/-! ## Room that is asked for -/

theorem Valid.wanted_le (v : s.Valid) (hp : p ∈ s.paced) : p.wanted ≤ s.capacity := by
  have hw := (v.wants p hp).1
  have ho := v.open'
  omega

theorem gathered_le_reserved (hp : p ∈ s.paced) : p.gathered ≤ s.reserved := by
  have h := gathered_filter_ticket hp
  rw [reserved_eq]
  omega

theorem Valid.buffer_sendPaced (v : s.Valid) (p : Paced α) :
    (s.sendPaced p).buffer = s.buffer ++ [p.item] :=
  List.drop_append_of_le_length v.taken

/-- The item is queued in a queue that is half free still. -/
theorem Valid.length_sendPaced (v : s.Valid) (hp : p ∈ s.paced) (hg : p.isGranted = true) :
    (s.sendPaced p).buffer.length ≤ s.capacity - s.capacity / 2 := by
  have hb := v.bounded
  have hw := (v.wants p hp).1
  have hr := gathered_le_reserved hp
  simp only [Paced.isGranted, decide_eq_true_eq] at hg
  rw [used] at hb
  rw [v.buffer_sendPaced, List.length_append, List.length_singleton]
  omega

end Stream

/-! ## How a paced push ends -/

variable {s : Stream α}

/-- The stream lets go of the push, and its node is disconnected from it. -/
def parted (h : Hub α) (r : PacedRef) (s : Stream α) : Hub α :=
  (h.setStream r.generation (s.withdraw r.ticket)).disconnect s.node r.generation

/-- A paced push goes on when it has its room, or when nobody listens any more. -/
inductive Resumed (h : Hub α) (r : PacedRef) (s : Stream α) : Outcome → Hub α → Prop where
  | sent (p : Paced α) (hl : s.listening = true) (hp : p ∈ s.paced) (ht : p.ticket = r.ticket)
      (hi : s.item? r.ticket = some p.item) (hg : p.isGranted = true) :
      Resumed h r s (.ok ()) (h.setStream r.generation (s.sendPaced p))
  | unheard (hl : s.listening = false) : Resumed h r s (.error (.notConnected s.node))
      ({ h with droppedNotConnected := h.droppedNotConnected + 1 }.parted r s)

theorem resumed (hs : h.streams.get? r.generation = some s)
    (hr : h.resume? r = some (outcome, h')) : Resumed h r s outcome h' := by
  unfold resume? at hr
  rw [hs, Option.bind_some] at hr
  split at hr
  · next hl =>
    obtain ⟨p, hp, he⟩ := Option.map_eq_some_iff.1 hr
    obtain ⟨hp, hg⟩ := Option.filter_eq_some_iff.1 hp
    obtain ⟨hm, ht⟩ := Stream.paced?_mem hp
    cases he
    exact .sent p hl hm ht (Stream.item?_iff.2 ⟨p, hp, rfl⟩) hg
  · next hl =>
    cases hr
    exact .unheard (by simpa using hl)

theorem expire_eq (hs : h.streams.get? r.generation = some s) :
    h.expire r = (.error (.queueFull s.node h.config.queueCapacity),
      { h with droppedQueueFull := h.droppedQueueFull + 1 }.parted r s) := by
  unfold expire
  rw [hs]
  rfl

theorem get?_streams_parted (h : Hub α) (r : PacedRef) (s : Stream α) :
    (h.parted r s).streams.get? r.generation = some (s.withdraw r.ticket) := by
  rw [parted, disconnect_streams]
  exact Table.get?_insert_self _ _ _

namespace Chronicle

variable {l l' : Chronicle α} {t : Nat} {c : Call α}

/-- The push is over without its item, and its node is disconnected if it still has the stream on
which the push began. -/
structure GivesUp (l l' : Chronicle α) (t : Nat) (c : Call α) (e : DeliveryError) : Prop where
  log : l'.log = .returned (.paced t) c (.error e) :: l.log
  stream : ∃ s s', l.hub.streams.get? c.generation = some s ∧
    l'.hub.streams.get? c.generation = some s' ∧ s.LetsGo s' t
  slots : ∀ n g, l'.hub.slots.get? n = some g ↔
    l.hub.slots.get? n = some g ∧ ¬ (n = c.node ∧ g = c.generation)

/-- The item is queued, and at least half the queue is free of items. -/
structure Queued (l l' : Chronicle α) (t : Nat) (c : Call α) : Prop where
  log : l'.log = .returned (.paced t) c (.ok ()) :: l.log
  stream : ∃ s s', l.hub.streams.get? c.generation = some s ∧
    l'.hub.streams.get? c.generation = some s' ∧ s'.buffer = s.buffer ++ [c.item] ∧
      s'.buffer.length ≤ s.capacity - s.capacity / 2
  slots : l'.hub.slots = l.hub.slots

/-! ## The steps of a paced push -/

namespace Valid

theorem waits (v : l.Valid) (hc : l.calls.get? (.paced t) = some c) :
    ∃ s p, l.hub.streams.get? c.generation = some s ∧ s.node = c.node ∧ p ∈ s.paced ∧
      p.ticket = t ∧ p.item = c.item ∧ s.item? t = some c.item := by
  obtain ⟨s, hs, hi⟩ := item?_eq_some (v.items t c hc)
  obtain ⟨p, hp, hitem⟩ := Stream.item?_iff.1 hi
  obtain ⟨hm, ht⟩ := Stream.paced?_mem hp
  have hnode := v.nodes _ c hc
  rw [nodeOf_eq hs, Option.some.injEq] at hnode
  exact ⟨s, p, hs, hnode, hm, ht, hitem, hi⟩

theorem began (v : l.Valid) (hc : l.calls.get? (.paced t) = some c) :
    ∃ since older, l.log = since ++ .began (.paced t) c :: older ∧
      Connected older c.node c.generation := by
  obtain ⟨since, older, he⟩ := List.append_of_mem (v.begun _ c hc)
  exact ⟨since, older, he, v.found _ c since older he⟩

theorem givesUp (v : l.Valid) {s : Stream α} {e : DeliveryError} {h : Hub α}
    (hs : l.hub.streams.get? c.generation = some s) (hnode : s.node = c.node)
    (hslots : h.slots = l.hub.slots) :
    GivesUp l (l.finish (.paced t) c (.error e, h.parted ⟨c.generation, t⟩ s)) t c e where
  log := rfl
  stream := ⟨s, _, hs, get?_streams_parted _ _ _, (v.hub.sound hs).letsGo t⟩
  slots := by
    intro n g
    show (h.parted _ s).slots.get? n = some g ↔ _
    rw [parted, disconnect_get?, hnode]
    show h.slots.get? n = some g ∧ _ ↔ _
    rw [hslots]

theorem step_resume (v : l.Valid) (hc : l.calls.get? (.paced t) = some c)
    (hs : l.step (.resume t) = some l') :
    Queued l l' t c ∨ GivesUp l l' t c (.notConnected c.node) := by
  simp only [Chronicle.step, hc, Option.bind_some, Option.map_eq_some_iff, Prod.exists] at hs
  obtain ⟨outcome, hub, hr, rfl⟩ := hs
  obtain ⟨s, -, hstream, hnode, -, -, -, hi⟩ := v.waits hc
  cases resumed hstream hr with
  | sent p hl hp ht hi' hg =>
    have hsound := v.hub.sound hstream
    have hitem : p.item = c.item := Option.some.inj (hi'.symm.trans hi)
    refine Or.inl ⟨rfl, ⟨s, _, hstream, Table.get?_insert_self _ _ _, ?_,
      hsound.length_sendPaced hp hg⟩, rfl⟩
    rw [hsound.buffer_sendPaced, hitem]
  | unheard hl =>
    rw [hnode]
    exact Or.inr (v.givesUp hstream hnode rfl)

theorem step_expire (v : l.Valid) (hc : l.calls.get? (.paced t) = some c)
    (hs : l.step (.expire t) = some l') :
    GivesUp l l' t c (.queueFull c.node l.hub.config.queueCapacity) := by
  simp only [Chronicle.step, hc, Option.bind_some] at hs
  obtain ⟨-, hs⟩ := Option.ite_none_left_eq_some.1 hs
  obtain ⟨s, -, hstream, hnode, -⟩ := v.waits hc
  cases hs
  rw [expire_eq hstream, hnode]
  exact v.givesUp hstream hnode rfl

end Valid

/-- A paced push asks for no more room than there is. When it queues its item, in the stream on
which it began, half the queue is free of items. Otherwise it leaves the items as they are, gives
back all its room, and disconnects its node only from the stream on which it began. One of this can
happen at any time. -/
theorem Reachable.paced_spares_half (hr : l.Reachable)
    (hc : l.calls.get? (.paced t) = some c) :
    (∃ since older, l.log = since ++ .began (.paced t) c :: older ∧
      Connected older c.node c.generation) ∧
    (∃ s p, l.hub.streams.get? c.generation = some s ∧ p ∈ s.paced ∧ p.ticket = t ∧
      p.item = c.item ∧ p.wanted = s.capacity / 2 + 1 ∧ p.wanted ≤ s.capacity ∧
      p.gathered ≤ p.wanted) ∧
    (∀ l', l.step (.resume t) = some l' →
      Queued l l' t c ∨ GivesUp l l' t c (.notConnected c.node)) ∧
    (∀ l', l.step (.expire t) = some l' →
      GivesUp l l' t c (.queueFull c.node l.hub.config.queueCapacity)) ∧
    ((l.step (.resume t)).isSome ∨ (l.step (.expire t)).isSome) := by
  have v := hr.valid
  obtain ⟨s, p, hs, -, hp, ht, hi, -⟩ := v.waits hc
  have hsound := v.hub.sound hs
  obtain ⟨hwanted, hgathered⟩ := hsound.wants p hp
  refine ⟨v.began hc, ⟨s, p, hs, hp, ht, hi, hwanted, hsound.wanted_le hp, hgathered⟩,
    fun l' => v.step_resume hc, fun l' => v.step_expire hc, ?_⟩
  simp only [Chronicle.step, hc, Option.bind_some]
  cases l.hub.resume? ⟨c.generation, t⟩ <;> simp

/-- A paced push waits in a queue of five with three items, until one of them is received. -/
def roomMade : List (Action Nat) :=
  [.register "a", .push "a" 1, .offer 0, .push "a" 2, .offer 1, .push "a" 3, .offer 2,
    .startPaced "a" 4, .receive 1]

/-- The node is connected anew while a paced push waits in its old stream, which is let down by its
subscriber. -/
def leftBehind : List (Action Nat) :=
  [.register "a", .push "a" 1, .offer 0, .push "a" 2, .offer 1, .push "a" 3, .offer 2,
    .startPaced "a" 4, .register "a", .drop 1]

def fiveDeep : Chronicle Nat := { hub := { config := { queueCapacity := 5 } } }

theorem roomMade_run : ∃ l l' c s', fiveDeep.run roomMade = some l ∧
    l.calls.get? (.paced 0) = some c ∧ c.generation = 1 ∧ l.step (.resume 0) = some l' ∧
    l'.log.head? = some (.returned (.paced 0) c (.ok ())) ∧
    l'.hub.streams.get? 1 = some s' ∧ s'.buffer = [2, 3, 4] ∧
    s'.capacity - s'.capacity / 2 = 3 :=
  ⟨_, _, _, _, rfl, rfl, rfl, rfl, rfl, rfl, rfl, rfl⟩

theorem leftBehind_run : ∃ l l' c, fiveDeep.run leftBehind = some l ∧
    l.calls.get? (.paced 0) = some c ∧ c.generation = 1 ∧ l.hub.slots.get? "a" = some 2 ∧
    l.step (.resume 0) = some l' ∧
    l'.log.head? = some (.returned (.paced 0) c (.error (.notConnected c.node))) :=
  ⟨_, _, _, rfl, rfl, rfl, rfl, rfl, rfl⟩

/-- The first push fills the queue up to the bound. The second gives up, and its node stays
connected. -/
theorem paced_spares_half_atBound :
    (∃ l l' c s', fiveDeep.run roomMade = some l ∧ l.calls.get? (.paced 0) = some c ∧
      l.step (.resume 0) = some l' ∧ Queued l l' 0 c ∧
      l'.hub.streams.get? c.generation = some s' ∧
      s'.buffer.length = s'.capacity - s'.capacity / 2) ∧
    ∃ l l' c, fiveDeep.run leftBehind = some l ∧ l.calls.get? (.paced 0) = some c ∧
      l.step (.resume 0) = some l' ∧ GivesUp l l' 0 c (.notConnected c.node) ∧
      l'.hub.slots.get? "a" = some 2 := by
  constructor
  · obtain ⟨l, l', c, s', hrun, hc, hg, hstep, hlog, hs', hbuffer, hbound⟩ := roomMade_run
    obtain ⟨-, -, hresume, -⟩ := Reachable.paced_spares_half ⟨_, _, hrun⟩ hc
    refine ⟨l, l', c, s', hrun, hc, hstep, (hresume l' hstep).resolve_right fun h => ?_,
      hg ▸ hs', by rw [hbuffer, hbound]; rfl⟩
    rw [h.log] at hlog
    simp at hlog
  · obtain ⟨l, l', c, hrun, hc, hg, hslot, hstep, hlog⟩ := leftBehind_run
    obtain ⟨-, -, hresume, -⟩ := Reachable.paced_spares_half ⟨_, _, hrun⟩ hc
    have hgives : GivesUp l l' 0 c (.notConnected c.node) := by
      refine (hresume l' hstep).resolve_left fun h => ?_
      rw [h.log] at hlog
      simp at hlog
    refine ⟨l, l', c, hrun, hc, hstep, hgives, (hgives.slots "a" 2).2 ⟨hslot, ?_⟩⟩
    simp [hg]

end Chronicle

end Nodecast.Hub
