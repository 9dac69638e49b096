import Nodecast.Proofs.Hub.Pushes

/-!
# What happens at a hub

Every step of a hub is one happening, and the happening says which node is connected, and what
enters a stream and leaves it.
-/

namespace Nodecast.Hub

variable {α : Type} {h h' : Hub α} {node n : String} {g g' ticket : Nat} {s s' : Stream α}
  {item : α} {rest : List α} {r : PacedRef}

/-! ## What a subscriber has still to take -/

def Stream.unread? (s : Stream α) : Option (List α) := if s.listening then some s.buffer else none

/-- What is left in a stream, if its subscriber still listens. -/
def unread? (h : Hub α) (g : Nat) : Option (List α) := (h.streams.get? g).bind Stream.unread?

theorem unread?_eq (hs : h.streams.get? g = some s) : h.unread? g = s.unread? := by
  simp [unread?, hs]

theorem unread?_setStream (h : Hub α) (g : Nat) (s : Stream α) :
    (h.setStream g s).unread? g' = if g' = g then s.unread? else h.unread? g' := by
  by_cases hg : g' = g
  · simp [unread?, setStream, hg]
  · simp [unread?, setStream, Table.get?_insert, hg]

theorem unread?_setStream_same (hs : h.streams.get? g = some s) (s' : Stream α)
    (hsame : s'.unread? = s.unread?) (g' : Nat) : (h.setStream g s').unread? g' = h.unread? g' := by
  rw [unread?_setStream]
  split
  · next he => rw [he, unread?_eq hs, hsame]
  · rfl

theorem disconnect_unread? (h : Hub α) (node : String) (g g' : Nat) :
    (h.disconnect node g).unread? g' = h.unread? g' := by
  rw [unread?, disconnect_streams]
  rfl

theorem disconnect_get? (h : Hub α) (node n : String) (g g' : Nat) :
    (h.disconnect node g).slots.get? n = some g' ↔
      h.slots.get? n = some g' ∧ ¬ (n = node ∧ g' = g) := by
  unfold disconnect
  split
  · next hg =>
    rw [Table.get?_erase]
    by_cases hn : n = node
    · subst hn
      simp only [if_true, true_and]
      refine ⟨by simp, ?_⟩
      rintro ⟨hg', hne⟩
      exact absurd (Option.some.inj (hg'.symm.trans hg)) hne
    · simp [hn]
  · next hg =>
    refine ⟨fun hg' => ⟨hg', ?_⟩, And.left⟩
    rintro ⟨rfl, rfl⟩
    exact hg hg'

theorem disconnect_nextTicket (h : Hub α) (node : String) (g : Nat) :
    (h.disconnect node g).nextTicket = h.nextTicket := by
  unfold disconnect
  split <;> rfl

/-! ## Happenings -/

/-- Pushes under way are told apart by these. -/
inductive CallId where
  | atOnce (n : Nat)
  | paced (ticket : Nat)
deriving DecidableEq

/-- A push that has found its stream. -/
structure Call (α : Type) where
  node : String
  generation : Nat
  item : α

inductive Happening (α : Type) where
  | registered (node : String) (g : Nat)
  | announced (node : String)
  | unregistered (node : String)
  /-- The subscription of the stream was dropped. -/
  | dropped (g : Nat)
  /-- A push found no stream. -/
  | missed (node : String)
  /-- A push found its stream. -/
  | began (id : CallId) (c : Call α)
  | returned (id : CallId) (c : Call α) (outcome : Outcome)
  | abandoned (id : CallId) (c : Call α)
  | received (g : Nat) (item : α)
  /-- The subscription was told that nothing comes any more. -/
  | closed (g : Nat)

namespace Happening

/-- The connection of the node through the stream ends: the node is registered anew, its stream is
taken away or dropped, or the stream is evicted because its queue is full. -/
def Ends (x : Happening α) (n : String) (g : Nat) : Prop :=
  match x with
  | registered node _ | unregistered node => node = n
  | dropped g' => g' = g
  | returned _ c (.error (.queueFull ..)) => c.generation = g
  | _ => False

/-- The item that enters a stream. -/
def sent? : Happening α → Option (Nat × α)
  | returned _ c (.ok ()) => some (c.generation, c.item)
  | _ => none

/-- The paced push that is over. -/
def spent? : Happening α → Option PacedRef
  | returned (.paced ticket) c _ | abandoned (.paced ticket) c => some ⟨c.generation, ticket⟩
  | _ => none

/-- The item that leaves a stream. -/
def taken? : Happening α → Option (Nat × α)
  | received g item => some (g, item)
  | _ => none

end Happening

def itemsFor (g : Nat) (x : Option (Nat × α)) : List α :=
  (x.toList.filter fun x => x.1 = g).map Prod.snd

variable {x : Happening α}

/-- The step is the happening, and nothing else happens in it. -/
structure Follows (h h' : Hub α) (x : Happening α) : Prop extends
    Moves h h' x.sent? x.spent? where
  slot_iff : ∀ n g, h'.slots.get? n = some g ↔
    x = .registered n g ∨ h.slots.get? n = some g ∧ ¬ x.Ends n g
  unread : ∀ g rest, h'.unread? g = some rest →
    (∃ n, x = .registered n g) ∧ h.logOf g = [] ∧ rest = [] ∨
      ∃ before, h.unread? g = some before ∧
        before ++ itemsFor g x.sent? = itemsFor g x.taken? ++ rest
  ticket : h.nextTicket ≤ h'.nextTicket

theorem Moves.follows (m : Moves h h' x.sent? x.spent?) (hslots : h'.slots = h.slots)
    (hunread : ∀ g rest, h'.unread? g = some rest → ∃ before, h.unread? g = some before ∧
      before ++ itemsFor g x.sent? = itemsFor g x.taken? ++ rest)
    (hticket : h.nextTicket ≤ h'.nextTicket)
    (hx : ∀ n g, x ≠ .registered n g ∧ ¬ x.Ends n g) : Follows h h' x where
  toMoves := m
  slot_iff := by
    intro n g
    rw [hslots]
    obtain ⟨hne, hno⟩ := hx n g
    exact ⟨fun hg => Or.inr ⟨hg, hno⟩, fun hg => (hg.resolve_left hne).1⟩
  unread := fun g rest hr => Or.inr (hunread g rest hr)
  ticket := hticket

theorem itemsFor_none (g : Nat) : itemsFor g (none : Option (Nat × α)) = [] := rfl

theorem itemsFor_some (g g' : Nat) (item : α) :
    itemsFor g (some (g', item)) = if g' = g then [item] else [] := by
  by_cases hg : g' = g <;> simp [itemsFor, hg]

/-! ## Connecting and disconnecting -/

theorem Valid.follows_register (v : h.Valid) (node : String) :
    Follows h (h.register node).2 (.registered node h.nextGeneration) where
  toMoves := v.register node
  slot_iff := by
    intro n g
    show (h.slots.insert node h.nextGeneration).get? n = some g ↔ _
    rw [Table.get?_insert, Happening.registered.injEq]
    by_cases hn : n = node
    · simp [hn, Happening.Ends]
    · simp [hn, Happening.Ends, Ne.symm hn]
  unread := by
    intro g rest hr
    by_cases hg : g = h.nextGeneration
    · have hnone : h.streams.get? g = none := by
        rw [Option.eq_none_iff_forall_ne_some]
        intro s hs
        exact absurd (v.known hs) (by omega)
      refine Or.inl ⟨⟨node, by rw [hg]⟩, by simp [logOf, hnone], ?_⟩
      have hnew : (h.register node).2.unread? g = some [] := by
        simp [unread?, Hub.register, hg, Stream.unread?, Stream.buffer]
      exact (Option.some.inj (hnew.symm.trans hr)).symm
    · refine Or.inr ⟨rest, ?_, by simp [Happening.sent?, Happening.taken?, itemsFor_none]⟩
      simpa only [unread?, Hub.register, Table.get?_insert_of_ne _ _ hg] using hr
  ticket := Nat.le_refl _

theorem Valid.follows_announce (v : h.Valid) (node : String) :
    Follows h (h.notifyJoin node) (.announced node) :=
  Moves.follows (v.moves_of_streams rfl rfl id rfl rfl) rfl
    (fun _ rest hr => ⟨rest, hr, List.append_nil _⟩) (Nat.le_refl _) fun _ _ => ⟨nofun, id⟩

theorem Valid.follows_unregister (v : h.Valid) (node : String) :
    Follows h (h.unregister node).2 (.unregistered node) where
  toMoves := v.unregister node
  slot_iff := by
    intro n g
    show (h.slots.erase node).get? n = some g ↔ _
    rw [Table.get?_erase]
    by_cases hn : n = node
    · simp [hn, Happening.Ends]
    · simp [hn, Happening.Ends, Ne.symm hn]
  unread := fun _ rest hr => Or.inr ⟨rest, hr, List.append_nil _⟩
  ticket := Nat.le_refl _

theorem Valid.follows_drop (v : h.Valid) (hs : h.streams.get? g = some s) :
    Follows h (h.drop g) (.dropped g) := by
  have hdrop : h.drop g = (h.setStream g s.hangUp).disconnect s.node g := by
    unfold Hub.drop
    rw [hs]
    rfl
  refine ⟨v.drop g, ?_, ?_, ?_⟩
  · intro n g'
    rw [hdrop, disconnect_get?]
    show h.slots.get? n = some g' ∧ _ ↔ _
    simp only [reduceCtorEq, Happening.Ends, false_or]
    refine and_congr_right fun hg' => not_congr ⟨fun he => he.2.symm, ?_⟩
    rintro rfl
    exact ⟨(v.listens hg' hs).1.symm, rfl⟩
  · intro g' rest hr
    rw [hdrop, disconnect_unread?, unread?_setStream] at hr
    split at hr
    · contradiction
    · exact Or.inr ⟨rest, hr, List.append_nil _⟩
  · rw [hdrop, disconnect_nextTicket]
    exact Nat.le_refl _

/-! ## Pushes -/

theorem Valid.follows_miss (v : h.Valid) (node : String) :
    Follows h (h.refuse node).2 (.missed node) :=
  Moves.follows (v.refuse node) rfl (fun _ rest hr => ⟨rest, hr, List.append_nil _⟩)
    (Nat.le_refl _) fun _ _ => ⟨nofun, id⟩

theorem Valid.follows_begin (v : h.Valid) (i : CallId) (c : Call α) : Follows h h (.began i c) :=
  Moves.follows (v.moves_of_streams rfl rfl id rfl rfl) rfl
    (fun _ rest hr => ⟨rest, hr, List.append_nil _⟩) (Nat.le_refl _) fun _ _ => ⟨nofun, id⟩

theorem Valid.follows_startPaced (v : h.Valid) (hp : h.startPaced node item = (.ok r, h'))
    (i : CallId) : Follows h h' (.began i ⟨node, r.generation, item⟩) := by
  obtain ⟨m, -⟩ := v.startPaced_ok hp
  unfold Hub.startPaced at hp
  split at hp
  · cases hp
  · next g s hc =>
    obtain ⟨hg, hs⟩ := connection?_eq_some.1 hc
    rw [reserve_eq hs] at hp
    cases hp
    refine m.follows rfl ?_ (Nat.le_succ _) fun _ _ => ⟨nofun, id⟩
    intro g' rest hr
    have hsame := unread?_setStream_same hs (s.startPaced h.nextTicket item) rfl g'
    exact ⟨rest, hsame.symm.trans hr, List.append_nil _⟩

theorem unread?_append (hs : h.streams.get? g = some s) (hv : s.Valid) (s' : Stream α)
    (hnew : s'.log = s.log ++ [item]) (htaken : s'.taken = s.taken)
    (hl : s'.listening = s.listening) (hr : (h.setStream g s').unread? g' = some rest) :
    ∃ before, h.unread? g' = some before ∧ before ++ itemsFor g' (some (g, item)) = rest := by
  rw [unread?_setStream] at hr
  split at hr
  · next he =>
    subst he
    unfold Stream.unread? at hr
    rw [hl] at hr
    split at hr
    · next hlisten =>
      refine ⟨s.buffer, by rw [unread?_eq hs, Stream.unread?, if_pos hlisten], ?_⟩
      rw [itemsFor_some, if_pos rfl, ← Option.some.inj hr, Stream.buffer, Stream.buffer, hnew,
        htaken, List.drop_append_of_le_length hv.taken]
    · contradiction
  · next he => exact ⟨rest, hr, by rw [itemsFor_some, if_neg (Ne.symm he), List.append_nil]⟩

variable {i : CallId} {c : Call α} {h1 : Hub α} {capacity : Nat}

theorem Valid.follows_evict (v : h.Valid) (hnode : h.nodeOf c.generation = some c.node)
    (m : Moves h (h1.disconnect c.node c.generation) none
      (Happening.returned i c (.error (.queueFull node capacity))).spent?)
    (hslots : h1.slots = h.slots) (hunread : ∀ g, h1.unread? g = h.unread? g)
    (hticket : h1.nextTicket = h.nextTicket) :
    Follows h (h1.disconnect c.node c.generation)
      (.returned i c (.error (.queueFull node capacity))) := by
  refine ⟨m, ?_, ?_, ?_⟩
  · intro n g
    rw [disconnect_get?, hslots]
    simp only [reduceCtorEq, Happening.Ends, false_or]
    refine and_congr_right fun hg => not_congr ⟨fun he => he.2.symm, ?_⟩
    rintro rfl
    obtain ⟨s, hs, hn, -⟩ := v.connected hg
    rw [nodeOf_eq hs, Option.some.injEq] at hnode
    exact ⟨hn.symm.trans hnode, rfl⟩
  · intro g rest hr
    rw [disconnect_unread?, hunread] at hr
    exact Or.inr ⟨rest, hr, List.append_nil _⟩
  · exact Nat.le_of_eq ((disconnect_nextTicket h1 _ _).trans hticket).symm

theorem Valid.follows_close (v : h.Valid)
    (hgone : ∀ s, h.streams.get? c.generation = some s → s.listening = false)
    (m : Moves h (h1.disconnect c.node c.generation) none
      (Happening.returned i c (.error (.notConnected node))).spent?)
    (hslots : h1.slots = h.slots) (hunread : ∀ g, h1.unread? g = h.unread? g)
    (hticket : h1.nextTicket = h.nextTicket) :
    Follows h (h1.disconnect c.node c.generation)
      (.returned i c (.error (.notConnected node))) := by
  refine ⟨m, ?_, ?_, ?_⟩
  · intro n g
    rw [disconnect_get?, hslots]
    simp only [reduceCtorEq, Happening.Ends, false_or, not_false_eq_true, and_true]
    refine and_iff_left_of_imp fun hg => ?_
    rintro ⟨-, rfl⟩
    obtain ⟨s, hs, -, hl⟩ := v.connected hg
    rw [hgone s hs] at hl
    contradiction
  · intro g rest hr
    rw [disconnect_unread?, hunread] at hr
    exact Or.inr ⟨rest, hr, List.append_nil _⟩
  · exact Nat.le_of_eq ((disconnect_nextTicket h1 _ _).trans hticket).symm

theorem Valid.follows_offer {outcome : Outcome} (v : h.Valid)
    (hnode : h.nodeOf c.generation = some c.node) (k : Nat)
    (ho : h.offer c.node c.generation c.item = (outcome, h')) :
    Follows h h' (.returned (.atOnce k) c outcome) := by
  have hoffered := offered h c.node c.generation c.item
  rw [ho] at hoffered
  cases hoffered with
  | @accepted s hs hl hfree =>
    refine Moves.follows (v.enqueue hs hfree c.item) rfl ?_ (Nat.le_refl _) fun _ _ =>
      ⟨by simp, id⟩
    exact fun g' rest hr =>
      unread?_append hs (v.sound hs)
        { s with log := s.log ++ [c.item], delivered := s.delivered + 1 } rfl rfl rfl hr
  | evicted =>
    have m : Moves h { h with droppedQueueFull := h.droppedQueueFull + 1 } none none :=
      v.moves_of_streams rfl rfl id rfl rfl
    exact v.follows_evict hnode (m.trans (m.valid.disconnect _ _)) rfl (fun _ => rfl) rfl
  | closed hgone =>
    have m : Moves h { h with droppedNotConnected := h.droppedNotConnected + 1 } none none :=
      v.moves_of_streams rfl rfl id rfl rfl
    exact v.follows_close hgone (m.trans (m.valid.disconnect _ _)) rfl (fun _ => rfl) rfl

theorem Valid.follows_resume {outcome : Outcome} (v : h.Valid)
    (hi : h.item? ⟨c.generation, ticket⟩ = some c.item)
    (hnode : h.nodeOf c.generation = some c.node)
    (hr : h.resume? ⟨c.generation, ticket⟩ = some (outcome, h')) :
    Follows h h' (.returned (.paced ticket) c outcome) := by
  obtain ⟨s, hs, hr⟩ := Option.bind_eq_some_iff.1 hr
  rw [nodeOf_eq hs, Option.some.injEq] at hnode
  have hsame : ∀ g, (h.setStream c.generation (s.withdraw ticket)).unread? g = h.unread? g :=
    unread?_setStream_same hs _ rfl
  split at hr
  · obtain ⟨p, hp, he⟩ := Option.map_eq_some_iff.1 hr
    obtain ⟨hp, hgranted⟩ := Option.filter_eq_some_iff.1 hp
    cases he
    have hitem : p.item = c.item := by
      have hpaced : h.item? ⟨c.generation, ticket⟩ = some p.item := by
        simp only [item?, hs, Option.bind_some]
        exact Stream.item?_iff.2 ⟨p, hp, rfl⟩
      exact Option.some.inj (hpaced.symm.trans hi)
    have m := v.sendPaced hs hp hgranted
    rw [hitem] at m
    refine m.follows rfl ?_ (Nat.le_refl _) fun _ _ => ⟨by simp, id⟩
    exact fun g' rest hr =>
      unread?_append hs (v.sound hs) (s.sendPaced p) (congrArg (fun e => s.log ++ [e]) hitem) rfl
        rfl hr
  · next hl =>
    cases hr
    have m' := (v.refuse s.node).withdraw_disconnect rfl hs ticket
    rw [hnode] at m' ⊢
    refine v.follows_close ?_ m' rfl hsame rfl
    intro s' hs'
    rw [hs, Option.some.injEq] at hs'
    exact hs' ▸ by simpa using hl

theorem Valid.follows_expire (v : h.Valid) (hi : h.item? ⟨c.generation, ticket⟩ = some c.item)
    (hnode : h.nodeOf c.generation = some c.node) :
    Follows h (h.expire ⟨c.generation, ticket⟩).2
      (.returned (.paced ticket) c (h.expire ⟨c.generation, ticket⟩).1) := by
  obtain ⟨s, hs, -⟩ := item?_eq_some hi
  have hn := hnode
  rw [nodeOf_eq hs, Option.some.injEq] at hn
  have hsame : ∀ g, (h.setStream c.generation (s.withdraw ticket)).unread? g = h.unread? g :=
    unread?_setStream_same hs _ rfl
  have m := (v.expire hi).1
  unfold Hub.expire at m ⊢
  simp only [hs, hn] at m ⊢
  exact v.follows_evict hnode m rfl hsame rfl

theorem Valid.follows_abandon (v : h.Valid) (ticket : Nat) (c : Call α) :
    Follows h (h.abandon ⟨c.generation, ticket⟩) (.abandoned (.paced ticket) c) := by
  have m := v.abandon ⟨c.generation, ticket⟩
  unfold Hub.abandon at m ⊢
  cases hs : h.streams.get? c.generation with
  | none =>
    simp only [hs] at m ⊢
    exact m.follows rfl (fun _ rest hr => ⟨rest, hr, List.append_nil _⟩) (Nat.le_refl _)
      fun _ _ => ⟨by simp, id⟩
  | some s =>
    simp only [hs] at m ⊢
    refine m.follows rfl ?_ (Nat.le_refl _) fun _ _ => ⟨by simp, id⟩
    intro g rest hr
    rw [unread?_setStream_same hs (s.withdraw ticket) rfl] at hr
    exact ⟨rest, hr, List.append_nil _⟩

/-! ## The subscriber's side -/

theorem receive_eq_some (hr : h.receive g = (some item, h')) :
    ∃ s rest, h.streams.get? g = some s ∧ s.buffer = item :: rest ∧
      h' = h.setStream g (Stream.dealFree { s with taken := s.taken + 1 }) := by
  unfold Hub.receive at hr
  cases hs : h.streams.get? g with
  | none =>
    rw [hs] at hr
    cases hr
  | some s =>
    simp only [hs, Stream.receive] at hr
    cases hb : s.buffer with
    | nil =>
      rw [hb] at hr
      cases hr
    | cons first rest =>
      rw [hb] at hr
      cases hr
      exact ⟨s, rest, rfl, hb, rfl⟩

theorem Valid.follows_receive (v : h.Valid) (hr : h.receive g = (some item, h')) :
    Follows h h' (.received g item) := by
  have m := v.receive g
  rw [hr] at m
  obtain ⟨s, left, hs, hb, rfl⟩ := receive_eq_some hr
  refine m.follows rfl ?_ (Nat.le_refl _) fun _ _ => ⟨nofun, id⟩
  intro g' rest hrest
  rw [unread?_setStream] at hrest
  split at hrest
  · next he =>
    subst he
    have hunread : (Stream.dealFree { s with taken := s.taken + 1 }).unread? =
        s.unread?.map List.tail := by
      unfold Stream.unread?
      show (if s.listening then some (s.log.drop (s.taken + 1)) else none) = _
      cases s.listening <;> simp [Stream.buffer]
    rw [hunread] at hrest
    obtain ⟨before, hbefore, rfl⟩ := Option.map_eq_some_iff.1 hrest
    refine ⟨before, by rw [unread?_eq hs, hbefore], ?_⟩
    unfold Stream.unread? at hbefore
    split at hbefore
    · cases hbefore
      simp [Happening.sent?, Happening.taken?, itemsFor_none, itemsFor_some, hb]
    · contradiction
  · next he =>
    refine ⟨rest, hrest, ?_⟩
    simp [Happening.sent?, Happening.taken?, itemsFor_none, itemsFor_some, Ne.symm he]

theorem Valid.follows_closed (v : h.Valid) (g : Nat) : Follows h h (.closed g) :=
  Moves.follows (v.moves_of_streams rfl rfl id rfl rfl) rfl
    (fun _ rest hr => ⟨rest, hr, List.append_nil _⟩) (Nat.le_refl _) fun _ _ => ⟨nofun, id⟩

end Nodecast.Hub
