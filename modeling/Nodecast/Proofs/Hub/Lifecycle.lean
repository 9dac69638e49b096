import Nodecast.Proofs.Hub.Chronicle

/-!
# Streams from their registration to their end

A node is connected through the last stream that was registered for it, until that stream is taken
away, dropped or evicted. What enters a stream reaches its subscriber in order, and nodes do not get
in each other's way.
-/

namespace Nodecast.Hub

variable {α : Type} {h h' : Hub α} {node n : String} {g : Nat} {s : Stream α}

/-! ## Other nodes -/

/-- Nothing changes for any other node than this. -/
structure Spares (h h' : Hub α) (node : String) : Prop where
  slot : ∀ n, n ≠ node → h'.slots.get? n = h.slots.get? n
  stream : ∀ n g, n ≠ node → h.nodeOf g = some n → h'.streams.get? g = h.streams.get? g

theorem spares_of_eq (hslots : h'.slots = h.slots) (hstreams : h'.streams = h.streams) :
    Spares h h' node where
  slot := fun n _ => by rw [hslots]
  stream := fun n g _ _ => by rw [hstreams]

theorem spares_setStream (hg : h.nodeOf g = some node) (s : Stream α) :
    Spares h (h.setStream g s) node where
  slot := fun _ _ => rfl
  stream := by
    intro n g' hn hg'
    refine Table.get?_insert_of_ne _ _ ?_
    rintro rfl
    exact hn (Option.some.inj (hg'.symm.trans hg))

theorem Spares.disconnect (a : Spares h h' node) : Spares h (h'.disconnect node g) node where
  slot := by
    intro n hn
    rw [← a.slot n hn]
    unfold Hub.disconnect
    split
    · exact Table.get?_erase_of_ne _ hn
    · rfl
  stream := fun n g hn hg => by rw [disconnect_streams, a.stream n g hn hg]

theorem Valid.spares_register (v : h.Valid) (node : String) :
    Spares h (h.register node).2 node where
  slot := fun _ hn => Table.get?_insert_of_ne _ _ hn
  stream := by
    intro n g hn hg
    obtain ⟨s, hs, -⟩ := nodeOf_eq_some.1 hg
    exact Table.get?_insert_of_ne _ _ (Nat.ne_of_lt (v.known hs))

theorem spares_unregister (h : Hub α) (node : String) : Spares h (h.unregister node).2 node where
  slot := fun _ hn => Table.get?_erase_of_ne _ hn
  stream := fun _ _ _ _ => rfl

theorem spares_drop (hg : h.nodeOf g = some node) : Spares h (h.drop g) node := by
  obtain ⟨s, hs, rfl⟩ := nodeOf_eq_some.1 hg
  unfold Hub.drop
  rw [hs]
  exact (spares_setStream hg s.hangUp).disconnect

theorem spares_offer {c : Call α} (hnode : h.nodeOf c.generation = some c.node) :
    Spares h (h.offer c.node c.generation c.item).2 c.node := by
  cases ho : h.offer c.node c.generation c.item with
  | mk outcome h' =>
    have hoffered := offered h c.node c.generation c.item
    rw [ho] at hoffered
    cases hoffered with
    | accepted => exact spares_setStream hnode _
    | evicted | closed => exact Spares.disconnect (spares_of_eq rfl rfl)

theorem Valid.spares_startPaced (v : h.Valid) (node : String) (item : α) :
    Spares h (h.startPaced node item).2 node := by
  unfold Hub.startPaced
  cases hc : h.connection? node with
  | none => exact spares_of_eq rfl rfl
  | some p =>
    obtain ⟨g, s⟩ := p
    obtain ⟨hg, hs⟩ := connection?_eq_some.1 hc
    have hnode : h.nodeOf g = some node := nodeOf_eq_some.2 ⟨s, hs, (v.listens hg hs).1⟩
    have a := spares_setStream hnode (s.startPaced h.nextTicket item)
    show Spares h (h.reserve g item).2 node
    rw [reserve_eq hs]
    exact ⟨a.slot, a.stream⟩

theorem spares_resume {r : PacedRef} {outcome : Outcome} (hnode : h.nodeOf r.generation = some node)
    (hr : h.resume? r = some (outcome, h')) : Spares h h' node := by
  obtain ⟨s, hs, hr⟩ := Option.bind_eq_some_iff.1 hr
  have hn := hnode
  rw [nodeOf_eq hs, Option.some.injEq] at hn
  split at hr
  · obtain ⟨p, -, he⟩ := Option.map_eq_some_iff.1 hr
    cases he
    exact spares_setStream hnode _
  · cases hr
    have a := spares_setStream hnode (s.withdraw r.ticket)
    rw [hn]
    exact Spares.disconnect ⟨a.slot, a.stream⟩

theorem spares_expire {r : PacedRef} (hnode : h.nodeOf r.generation = some node) :
    Spares h (h.expire r).2 node := by
  obtain ⟨s, hs, rfl⟩ := nodeOf_eq_some.1 hnode
  unfold Hub.expire
  have a := spares_setStream hnode (s.withdraw r.ticket)
  simp only [hs]
  exact Spares.disconnect ⟨a.slot, a.stream⟩

theorem spares_abandon {r : PacedRef} (hnode : h.nodeOf r.generation = some node) :
    Spares h (h.abandon r) node := by
  obtain ⟨s, hs, -⟩ := nodeOf_eq_some.1 hnode
  unfold Hub.abandon
  rw [hs]
  exact spares_setStream hnode _

theorem spares_receive (hnode : h.nodeOf g = some node) : Spares h (h.receive g).2 node := by
  obtain ⟨s, hs, -⟩ := nodeOf_eq_some.1 hnode
  unfold Hub.receive
  rw [hs]
  exact spares_setStream hnode _

namespace Chronicle

variable {l l' : Chronicle α} {a : Action α}

/-- The node that a step is for. -/
def about? (l : Chronicle α) : Action α → Option String
  | .register node | .announce node | .unregister node | .push node _ | .startPaced node _ =>
    some node
  | .drop g | .receive g => l.hub.nodeOf g
  | .offer n => (l.calls.get? (.atOnce n)).map Call.node
  | .resume t | .expire t | .abandon t => (l.calls.get? (.paced t)).map Call.node

theorem nodeOf_of_listens (hl : l.listens g = true) : ∃ node, l.hub.nodeOf g = some node := by
  obtain ⟨rest, hrest⟩ := Option.isSome_iff_exists.1 hl
  obtain ⟨s, hs, -⟩ := Option.bind_eq_some_iff.1 hrest
  exact ⟨s.node, nodeOf_eq hs⟩

theorem Valid.spares (v : l.Valid) (hs : l.step a = some l') :
    ∃ node, l.about? a = some node ∧ Spares l.hub l'.hub node := by
  cases a with
  | register node =>
    cases hs
    exact ⟨node, rfl, v.hub.spares_register node⟩
  | announce node =>
    cases hs
    exact ⟨node, rfl, spares_of_eq rfl rfl⟩
  | unregister node =>
    cases hs
    exact ⟨node, rfl, spares_unregister _ node⟩
  | drop g =>
    obtain ⟨hl, hs⟩ := Option.ite_none_right_eq_some.1 hs
    obtain ⟨node, hnode⟩ := nodeOf_of_listens hl
    cases hs
    exact ⟨node, hnode, spares_drop hnode⟩
  | push node item =>
    refine ⟨node, rfl, ?_⟩
    simp only [Chronicle.step] at hs
    split at hs <;> cases hs <;> exact spares_of_eq rfl rfl
  | offer n =>
    obtain ⟨c, hc, rfl⟩ := Option.map_eq_some_iff.1 hs
    exact ⟨c.node, congrArg (Option.map Call.node) hc, spares_offer (v.nodes _ c hc)⟩
  | startPaced node item =>
    have hspares := v.hub.spares_startPaced node item
    refine ⟨node, rfl, ?_⟩
    simp only [Chronicle.step] at hs
    split at hs
    · next e hub hp =>
      cases hs
      rwa [hp] at hspares
    · next r hub hp =>
      cases hs
      rwa [hp] at hspares
  | resume t =>
    obtain ⟨c, hc, hs⟩ := Option.bind_eq_some_iff.1 hs
    obtain ⟨result, hr, rfl⟩ := Option.map_eq_some_iff.1 hs
    exact ⟨c.node, congrArg (Option.map Call.node) hc, spares_resume (v.nodes _ c hc) hr⟩
  | expire t =>
    obtain ⟨c, hc, hs⟩ := Option.bind_eq_some_iff.1 hs
    obtain ⟨-, hs⟩ := Option.ite_none_left_eq_some.1 hs
    cases hs
    exact ⟨c.node, congrArg (Option.map Call.node) hc, spares_expire (v.nodes _ c hc)⟩
  | abandon t =>
    obtain ⟨c, hc, rfl⟩ := Option.map_eq_some_iff.1 hs
    exact ⟨c.node, congrArg (Option.map Call.node) hc, spares_abandon (v.nodes _ c hc)⟩
  | receive g =>
    obtain ⟨hl, hs⟩ := Option.ite_none_right_eq_some.1 hs
    obtain ⟨node, hnode⟩ := nodeOf_of_listens hl
    have hspares := spares_receive hnode
    refine ⟨node, hnode, ?_⟩
    split at hs
    · next item hub hr =>
      cases hs
      rwa [hr] at hspares
    · obtain ⟨-, hs⟩ := Option.ite_none_right_eq_some.1 hs
      cases hs
      exact spares_of_eq rfl rfl

/-! ## The whole life -/

theorem Valid.isConnected_iff (v : l.Valid) (node : String) :
    l.hub.isConnected node = true ↔ ∃ g, Connected l.log node g := by
  rw [isConnected, Table.contains_iff, Table.mem_keys_iff]
  exact exists_congr fun g => v.slots node g

theorem Valid.connection?_eq (v : l.Valid) (hspares : Spares l.hub l'.hub node) (hn : n ≠ node) :
    l'.hub.connection? n = l.hub.connection? n := by
  unfold connection?
  rw [hspares.slot n hn]
  cases hg : l.hub.slots.get? n with
  | none => rfl
  | some g =>
    obtain ⟨s, hs, hnode, -⟩ := v.hub.connected hg
    show (l'.hub.streams.get? g).bind _ = (l.hub.streams.get? g).bind _
    rw [hspares.stream n g hn (nodeOf_eq_some.2 ⟨s, hs, hnode⟩)]

/-- A node is connected exactly through the last stream registered for it, unless that stream was
dropped, taken away or evicted since. A push returns once, and offers its item to the stream that
was connected when it began. What entered a stream is what its pushes delivered, in order, and its
subscriber receives just that, as far as it gets. It is told that nothing comes any more only when
its stream has ended and all of it was received. Steps for one node leave all others alone. -/
theorem Reachable.stream_lives (hr : l.Reachable) :
    (∀ node, l.hub.isConnected node = true ↔ ∃ g, Connected l.log node g) ∧
    (∀ node g, l.hub.slots.get? node = some g ↔ Connected l.log node g) ∧
    (∀ i c outcome after before, l.log = after ++ .returned i c outcome :: before →
      (∀ c' outcome', .returned i c' outcome' ∉ before) ∧
        ∃ since older, before = since ++ .began i c :: older ∧
          Connected older c.node c.generation) ∧
    (∀ g, l.hub.logOf g = acceptedBy g l.log) ∧
    (∀ g, receivedBy g l.log <+: acceptedBy g l.log) ∧
    (∀ g rest, l.hub.unread? g = some rest → acceptedBy g l.log = receivedBy g l.log ++ rest) ∧
    (∀ g after before, l.log = after ++ .closed g :: before →
      (∀ n, ¬ Connected before n g) ∧ receivedBy g before = acceptedBy g before ∧
        acceptedBy g l.log = acceptedBy g before) ∧
    (∀ a l', l.step a = some l' → ∃ node, l.about? a = some node ∧ ∀ n, n ≠ node →
      l'.hub.connection? n = l.hub.connection? n ∧ l'.hub.subscriber? n = l.hub.subscriber? n ∧
        ∀ g, l.hub.nodeOf g = some n → l'.hub.streams.get? g = l.hub.streams.get? g) := by
  have v := hr.valid
  refine ⟨v.isConnected_iff, v.slots, ?_, v.entered, v.taken, v.unread, v.complete, ?_⟩
  · intro i c outcome after before he
    obtain ⟨honce, hbegan⟩ := v.once i c outcome after before he
    obtain ⟨since, older, rfl⟩ := List.append_of_mem hbegan
    refine ⟨honce, since, older, rfl, ?_⟩
    refine v.found i c (after ++ .returned i c outcome :: since) older ?_
    rw [he, List.append_assoc]
    rfl
  · intro a l' hs
    obtain ⟨node, habout, hspares⟩ := v.spares hs
    refine ⟨node, habout, fun n hn => ?_⟩
    have hsame := v.connection?_eq hspares hn
    exact ⟨hsame, by rw [subscriber?, hsame, subscriber?], fun g => hspares.stream n g hn⟩

/-- A push that is under way while its node registers anew delivers to the old stream, which its
subscriber reads to the end. -/
def handover : List (Action Nat) :=
  [.register "a", .push "a" 1, .register "a", .startPaced "a" 2, .offer 0, .receive 1, .receive 1,
    .resume 0, .drop 1, .receive 2]

theorem stream_lives_handover :
    ∃ l, ({ hub := { config := {} } } : Chronicle Nat).run handover = some l ∧
      l.hub.isConnected "a" = true ∧ l.hub.logOf 1 = [1] ∧ receivedBy 1 l.log = [1] ∧
      l.hub.logOf 2 = [2] ∧ receivedBy 2 l.log <+: [2] := by
  have hrun : ∃ l, ({ hub := { config := {} } } : Chronicle Nat).run handover = some l ∧
      l.hub.slots.get? "a" = some 2 ∧ acceptedBy 1 l.log = [1] ∧ acceptedBy 2 l.log = [2] ∧
      ∃ after before, l.log = after ++ .closed 1 :: before ∧
        acceptedBy 1 before = receivedBy 1 l.log :=
    ⟨_, rfl, rfl, rfl, rfl, [_, _, _], _, rfl, rfl⟩
  obtain ⟨l, hl, hslot, h1, h2, after, before, hclosed, hread⟩ := hrun
  have hr : l.Reachable := ⟨_, _, hl⟩
  obtain ⟨hconnected, hslots, -, hentered, htaken, -, hcomplete, -⟩ := hr.stream_lives
  obtain ⟨-, -, hall⟩ := hcomplete 1 after before hclosed
  refine ⟨l, hl, (hconnected "a").2 ⟨2, (hslots "a" 2).1 hslot⟩, ?_, ?_, ?_, ?_⟩
  · rw [hentered, h1]
  · rw [← hread, ← hall, h1]
  · rw [hentered, h2]
  · rw [← h2]
    exact htaken 2

end Chronicle

end Nodecast.Hub
