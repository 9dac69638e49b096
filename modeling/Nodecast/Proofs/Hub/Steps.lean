import Nodecast.Hub.State
import Nodecast.Proofs.Hub.Room

/-!
# Steps of the hub

A step of the hub adds at most one item to one stream. A stream that is no longer connected never
comes back.
-/

namespace Nodecast.Hub

variable {α : Type} {h h' h'' : Hub α} {node n : String} {g : Nat} {s s' : Stream α}
  {sent : Option (Nat × α)} {spent : Option PacedRef}

/-! ## What is seen of a hub -/

/-- All items ever queued on a stream. -/
def logOf (h : Hub α) (g : Nat) : List α := ((h.streams.get? g).map Stream.log).getD []

def nodeOf (h : Hub α) (g : Nat) : Option String := (h.streams.get? g).map Stream.node

/-- The item that a paced push waits to send. -/
def item? (h : Hub α) (r : PacedRef) : Option α :=
  (h.streams.get? r.generation).bind fun s => s.item? r.ticket

theorem logOf_eq (hs : h.streams.get? g = some s) : h.logOf g = s.log := by simp [logOf, hs]

@[simp] theorem logOf_setStream (h : Hub α) (g : Nat) (s : Stream α) :
    (h.setStream g s).logOf g = s.log := by simp [logOf, setStream]

theorem nodeOf_eq (hs : h.streams.get? g = some s) : h.nodeOf g = some s.node := by
  simp [nodeOf, hs]

theorem nodeOf_eq_some : h.nodeOf g = some n ↔ ∃ s, h.streams.get? g = some s ∧ s.node = n := by
  rw [nodeOf, Option.map_eq_some_iff]

theorem connection?_eq_some :
    h.connection? n = some (g, s) ↔ h.slots.get? n = some g ∧ h.streams.get? g = some s := by
  simp only [connection?, Option.bind_eq_bind, Option.bind_eq_some_iff, Option.pure_def,
    Option.some.injEq, Prod.mk.injEq]
  constructor
  · rintro ⟨_, hg, _, hs, rfl, rfl⟩
    exact ⟨hg, hs⟩
  · rintro ⟨hg, hs⟩
    exact ⟨g, hg, s, hs, rfl, rfl⟩

/-! ## What a hub keeps to -/

structure Valid (h : Hub α) : Prop where
  connected : ∀ {n g}, h.slots.get? n = some g →
    ∃ s, h.streams.get? g = some s ∧ s.node = n ∧ s.listening = true
  known : ∀ {g s}, h.streams.get? g = some s → g < h.nextGeneration
  sized : ∀ {g s}, h.streams.get? g = some s → s.capacity = max h.config.queueCapacity 1
  sound : ∀ {g s}, h.streams.get? g = some s → s.Valid
  asked : ∀ {g s}, h.streams.get? g = some s → ∀ p ∈ s.paced, p.ticket < h.nextTicket

theorem valid_init (config : Config) : ({ config } : Hub α).Valid := by
  constructor <;> intros <;> contradiction

theorem Valid.listens (v : h.Valid) (hg : h.slots.get? n = some g)
    (hs : h.streams.get? g = some s) : s.node = n ∧ s.listening = true := by
  obtain ⟨s', hs', hn⟩ := v.connected hg
  rw [hs, Option.some.injEq] at hs'
  exact hs' ▸ hn

theorem Valid.connection?_eq_none (v : h.Valid) (hc : h.connection? n = none) :
    h.slots.get? n = none := by
  cases hg : h.slots.get? n with
  | none => rfl
  | some g =>
    obtain ⟨s, hs, -⟩ := v.connected hg
    rw [connection?_eq_some.2 ⟨hg, hs⟩] at hc
    contradiction

/-- What a step may change: it adds the item `sent` to a stream, and ends the paced push `spent`. -/
structure Moves (h h' : Hub α) (sent : Option (Nat × α)) (spent : Option PacedRef) : Prop where
  valid : h'.Valid
  log : ∀ g, h'.logOf g = h.logOf g ++ (sent.toList.filter fun x => x.1 = g).map Prod.snd
  node : ∀ {g n}, h.nodeOf g = some n → h'.nodeOf g = some n
  slot : ∀ {n g}, g < h.nextGeneration → h'.slots.get? n = some g → h.slots.get? n = some g
  item : ∀ {r e}, spent ≠ some r → h.item? r = some e → h'.item? r = some e
  generation : h.nextGeneration ≤ h'.nextGeneration

theorem Moves.trans (m : Moves h h' none none) (m' : Moves h' h'' sent spent) :
    Moves h h'' sent spent where
  valid := m'.valid
  log := by
    intro g
    rw [m'.log, m.log]
    simp
  node := fun hn => m'.node (m.node hn)
  slot := fun hlt hg => m.slot hlt (m'.slot (Nat.lt_of_lt_of_le hlt m.generation) hg)
  item := fun hr he => m'.item hr (m.item (by simp) he)
  generation := Nat.le_trans m.generation m'.generation

theorem Valid.moves_of_streams (v : h.Valid) (hconfig : h'.config = h.config)
    (hstreams : h'.streams = h.streams)
    (hslots : ∀ {n g}, h'.slots.get? n = some g → h.slots.get? n = some g)
    (hgeneration : h'.nextGeneration = h.nextGeneration)
    (hticket : h'.nextTicket = h.nextTicket) : Moves h h' none none where
  valid := by
    refine ⟨?_, ?_, ?_, ?_, ?_⟩
    · intro n g hg
      rw [hstreams]
      exact v.connected (hslots hg)
    all_goals simp only [hstreams, hconfig, hgeneration, hticket]
    · exact v.known
    · exact v.sized
    · exact v.sound
    · exact v.asked
  log := by simp [logOf, hstreams]
  node := by simp [nodeOf, hstreams]
  slot := fun _ => hslots
  item := by simp [item?, hstreams]
  generation := Nat.le_of_eq hgeneration.symm

theorem Valid.refuse (v : h.Valid) (node : String) : Moves h (h.refuse node).2 none none :=
  v.moves_of_streams rfl rfl id rfl rfl

theorem Valid.valid_setStream (v : h.Valid) (hs : h.streams.get? g = some s) {ticket : Nat}
    (hv : s'.Valid) (hnode : s'.node = s.node) (hcapacity : s'.capacity = s.capacity)
    (hlisten : h.slots.get? s.node = some g → s'.listening = true)
    (hasked : ∀ p ∈ s'.paced, p.ticket < ticket) (hticket : h.nextTicket ≤ ticket) :
    Valid { h with streams := h.streams.insert g s', nextTicket := ticket } where
  connected := by
    intro n g' hg
    by_cases e : g' = g
    · subst e
      have hn := (v.listens hg hs).1
      exact ⟨s', Table.get?_insert_self _ _ _, hnode.trans hn, hlisten (hn ▸ hg)⟩
    · obtain ⟨s1, hs1, hn, hl⟩ := v.connected hg
      exact ⟨s1, by rw [Table.get?_insert_of_ne _ _ e, hs1], hn, hl⟩
  known := by
    intro g' s1 h1
    rw [Table.get?_insert] at h1
    split at h1
    · next e =>
      subst e
      exact v.known hs
    · exact v.known h1
  sized := by
    intro g' s1 h1
    rw [Table.get?_insert] at h1
    split at h1
    · cases h1
      exact hcapacity.trans (v.sized hs)
    · exact v.sized h1
  sound := by
    intro g' s1 h1
    rw [Table.get?_insert] at h1
    split at h1
    · cases h1
      exact hv
    · exact v.sound h1
  asked := by
    intro g' s1 h1 p hp
    rw [Table.get?_insert] at h1
    split at h1
    · cases h1
      exact hasked p hp
    · exact Nat.lt_of_lt_of_le (v.asked h1 p hp) hticket

theorem Valid.moves_of_stream (v : h.Valid) (item : Option α)
    (hs : h.streams.get? g = some s) {ticket : Nat} (hv : s'.Valid) (hnode : s'.node = s.node)
    (hcapacity : s'.capacity = s.capacity)
    (hlog : s'.log = s.log ++ item.toList)
    (hlisten : h.slots.get? s.node = some g → s'.listening = true)
    (hasked : ∀ p ∈ s'.paced, p.ticket < ticket) (hticket : h.nextTicket ≤ ticket)
    (hitem : ∀ t e, spent ≠ some ⟨g, t⟩ → s.item? t = some e → s'.item? t = some e) :
    Moves h { h with streams := h.streams.insert g s', nextTicket := ticket }
      (item.map fun e => (g, e)) spent where
  valid := v.valid_setStream hs hv hnode hcapacity hlisten hasked hticket
  log := by
    intro g'
    by_cases e : g' = g
    · subst e
      rw [logOf_eq hs, logOf_eq (Table.get?_insert_self _ _ _), hlog]
      cases item <;> simp
    · simp only [logOf, Table.get?_insert_of_ne _ _ e]
      cases item <;> simp [Ne.symm e]
  node := by
    intro g' n hn
    by_cases e : g' = g
    · subst e
      rw [nodeOf_eq hs] at hn
      rw [nodeOf_eq (Table.get?_insert_self _ _ _), hnode, hn]
    · simpa only [nodeOf, Table.get?_insert_of_ne _ _ e] using hn
  slot := fun _ hg => hg
  item := by
    rintro ⟨g', t⟩ e hr he
    by_cases hg : g' = g
    · subst hg
      simp only [item?, hs, Option.bind_some, Table.get?_insert_self] at he ⊢
      exact hitem t e hr he
    · simpa only [item?, Table.get?_insert_of_ne _ _ hg] using he
  generation := Nat.le_refl _

/-! ## Connecting and disconnecting -/

theorem Valid.valid_register (v : h.Valid) (node : String) : (h.register node).2.Valid where
  connected := by
    intro n g hg
    simp only [Hub.register, Table.get?_insert] at hg ⊢
    split at hg
    · next e =>
      cases hg
      exact ⟨_, if_pos rfl, e.symm, rfl⟩
    · obtain ⟨s, hs, hn⟩ := v.connected hg
      exact ⟨s, by rw [if_neg (Nat.ne_of_lt (v.known hs)), hs], hn⟩
  known := by
    intro g s hs
    simp only [Hub.register, Table.get?_insert] at hs ⊢
    split at hs
    · omega
    · have := v.known hs
      omega
  sized := by
    intro g s hs
    simp only [Hub.register, Table.get?_insert] at hs ⊢
    split at hs
    · cases hs
      rfl
    · exact v.sized hs
  sound := by
    intro g s hs
    simp only [Hub.register, Table.get?_insert] at hs
    split at hs
    · cases hs
      refine ⟨?_, Nat.le_refl _, Nat.zero_le _, by simp, rfl, by simp, by simp⟩
      exact Nat.lt_of_lt_of_le Nat.one_pos (Nat.le_max_right _ _)
    · exact v.sound hs
  asked := by
    intro g s hs
    simp only [Hub.register, Table.get?_insert] at hs
    split at hs
    · cases hs
      simp
    · exact v.asked hs

theorem Valid.register (v : h.Valid) (node : String) : Moves h (h.register node).2 none none where
  valid := v.valid_register node
  log := by
    intro g
    simp only [Hub.register, logOf, Table.get?_insert]
    split
    · next e =>
      have hnone : h.streams.get? g = none := by
        rw [Option.eq_none_iff_forall_ne_some]
        intro s hs
        exact absurd (v.known hs) (by omega)
      simp [hnone]
    · simp
  node := by
    intro g n hn
    obtain ⟨s, hs, -⟩ := nodeOf_eq_some.1 hn
    simpa only [Hub.register, nodeOf, Table.get?_insert_of_ne _ _ (Nat.ne_of_lt (v.known hs))]
      using hn
  slot := by
    intro n g hlt hg
    simp only [Hub.register, Table.get?_insert] at hg
    split at hg
    · cases hg
      exact absurd hlt (Nat.lt_irrefl _)
    · exact hg
  item := by
    intro r e _ he
    obtain ⟨s, hs, -⟩ := Option.bind_eq_some_iff.1 he
    simpa only [Hub.register, item?, Table.get?_insert_of_ne _ _ (Nat.ne_of_lt (v.known hs))]
      using he
  generation := Nat.le_succ _

theorem get?_slots_erase {k : String} (hg : (h.slots.erase k).get? n = some g) :
    h.slots.get? n = some g := by
  rw [Table.get?_erase] at hg
  split at hg
  · contradiction
  · exact hg

theorem Valid.unregister (v : h.Valid) (node : String) :
    Moves h (h.unregister node).2 none none :=
  v.moves_of_streams rfl rfl get?_slots_erase rfl rfl

theorem Valid.nextJoin (v : h.Valid) (listener : Nat) :
    Moves h (((h.nextJoin listener).map Prod.snd).getD h) none none := by
  unfold Hub.nextJoin
  split <;> exact v.moves_of_streams rfl rfl id rfl rfl

theorem Valid.disconnect (v : h.Valid) (node : String) (g : Nat) :
    Moves h (h.disconnect node g) none none := by
  unfold Hub.disconnect
  split
  · exact v.moves_of_streams rfl rfl get?_slots_erase rfl rfl
  · exact v.moves_of_streams rfl rfl id rfl rfl

theorem disconnect_slot (h : Hub α) (node : String) (g : Nat) :
    (h.disconnect node g).slots.get? node ≠ some g := by
  unfold Hub.disconnect
  split
  · simp
  · assumption

theorem disconnect_setStream (h : Hub α) (node : String) (g : Nat) (s : Stream α) :
    (h.setStream g s).disconnect node g = (h.disconnect node g).setStream g s := by
  unfold Hub.disconnect
  rw [show (h.setStream g s).slots = h.slots from rfl]
  split <;> rfl

theorem disconnect_streams (h : Hub α) (node : String) (g : Nat) :
    (h.disconnect node g).streams = h.streams := by
  unfold Hub.disconnect
  split <;> rfl

theorem Valid.drop (v : h.Valid) (g : Nat) : Moves h (h.drop g) none none := by
  unfold Hub.drop
  split
  · exact v.moves_of_streams rfl rfl id rfl rfl
  · next s hs =>
    -- The node is disconnected in the same step, so its connected stream still listens.
    show Moves h ((h.setStream g s.hangUp).disconnect s.node g) none none
    rw [disconnect_setStream]
    have m := v.disconnect s.node g
    have hs' : (h.disconnect s.node g).streams.get? g = some s := by rw [disconnect_streams, hs]
    refine m.trans (m.valid.moves_of_stream none hs' (v.sound hs).hangUp rfl rfl ?_ ?_ ?_
      (Nat.le_refl _) ?_)
    · simp [Stream.hangUp]
    · intro hg
      exact absurd hg (disconnect_slot h s.node g)
    · exact fun p hp => m.valid.asked hs' p hp
    · intro t e _ he
      exact he

end Nodecast.Hub
