import Nodecast.Proofs.Hub.Pushes

/-!
# Refused items

A push is refused when buffered items and the room that paced pushes have gathered fill the queue.
A paced push that still gathers has taken all that is left, so it has every push refused.
-/

namespace Nodecast.Hub

variable {α : Type} {h : Hub α} {node : String} {g : Nat} {s : Stream α}

/-! ## Runs of a hub -/

/-- Whatever is asked of a hub. -/
inductive Op (α : Type) where
  | tick (now : Nat)
  | register (node : String)
  | unregister (node : String)
  | leave (generation : Nat)
  | announce (node : String)
  | listen
  | nextJoin (listener : Nat)
  | stopListening (listener : Nat)
  | push (node : String) (item : α)
  | startPaced (node : String) (item : α)
  | resume (r : PacedRef)
  | expire (r : PacedRef)
  | abandon (r : PacedRef)
  | receive (generation : Nat)

/-- Only a paced push that waits can end, and its time is up only while it cannot go on. -/
def act (h : Hub α) : Op α → Hub α
  | .tick now => { h with clock := now }
  | .register node => (h.register node).2
  | .unregister node => (h.unregister node).2
  | .leave generation => h.drop generation
  | .announce node => h.notifyJoin node
  | .listen => h.listen.2
  | .nextJoin listener => ((h.nextJoin listener).map Prod.snd).getD h
  | .stopListening listener => h.stopListening listener
  | .push node item => (h.push node item).2
  | .startPaced node item => (h.startPaced node item).2
  | .resume r => if (h.item? r).isSome then ((h.resume? r).map Prod.snd).getD h else h
  | .expire r =>
    if (h.item? r).isSome ∧ (h.resume? r).isNone then (h.expire r).2 else h
  | .abandon r => if (h.item? r).isSome then h.abandon r else h
  | .receive generation => (h.receive generation).2

def run (h : Hub α) (ops : List (Op α)) : Hub α := ops.foldl act h

/-- Every run begins with a hub without streams, of any capacity. -/
def Reachable (h : Hub α) : Prop := ∃ config ops, h = run { config } ops

theorem Valid.act (v : h.Valid) (op : Op α) : ∃ sent spent, Moves h (h.act op) sent spent := by
  have same : Moves h h none none := v.moves_of_streams rfl rfl id rfl rfl
  cases op with
  | tick now => exact ⟨none, none, v.moves_of_streams rfl rfl id rfl rfl⟩
  | register node => exact ⟨none, none, v.register node⟩
  | unregister node => exact ⟨none, none, v.unregister node⟩
  | leave generation => exact ⟨none, none, v.drop generation⟩
  | announce node => exact ⟨none, none, v.moves_of_streams rfl rfl id rfl rfl⟩
  | listen => exact ⟨none, none, v.moves_of_streams rfl rfl id rfl rfl⟩
  | nextJoin listener => exact ⟨none, none, v.nextJoin listener⟩
  | stopListening listener => exact ⟨none, none, v.moves_of_streams rfl rfl id rfl rfl⟩
  | push node item =>
    obtain ⟨sent, m⟩ := v.push node item
    exact ⟨sent, none, m⟩
  | startPaced node item => exact ⟨none, none, (v.startPaced node item).1⟩
  | resume r =>
    simp only [Hub.act]
    split
    · cases hr : h.resume? r with
      | none => exact ⟨none, none, same⟩
      | some x =>
        obtain ⟨sent, m, -⟩ := v.resume hr
        exact ⟨sent, some r, m⟩
    · exact ⟨none, none, same⟩
  | expire r =>
    simp only [Hub.act]
    split
    · next hw =>
      obtain ⟨e, hi⟩ := Option.isSome_iff_exists.1 hw.1
      exact ⟨none, some r, (v.expire hi).1⟩
    · exact ⟨none, none, same⟩
  | abandon r =>
    simp only [Hub.act]
    split
    · exact ⟨none, some r, v.abandon r⟩
    · exact ⟨none, none, same⟩
  | receive generation => exact ⟨none, none, v.receive generation⟩

theorem Valid.run (v : h.Valid) (ops : List (Op α)) : (h.run ops).Valid := by
  induction ops generalizing h with
  | nil => exact v
  | cons op rest ih =>
    obtain ⟨sent, spent, m⟩ := v.act op
    exact ih m.valid

theorem Reachable.valid (hr : h.Reachable) : h.Valid := by
  obtain ⟨config, ops, rfl⟩ := hr
  exact (valid_init config).run ops

/-! ## What comes of a push -/

/-- The item is turned away, and its node is disconnected. -/
def Refuses (h : Hub α) (node : String) (item : α) : Prop :=
  (h.push node item).1 = .error (.queueFull node h.config.queueCapacity) ∧
    (h.push node item).2.slots.get? node = none

/-- The item becomes the youngest of the stream, which stays connected. -/
def Queues (h : Hub α) (node : String) (g : Nat) (item : α) : Prop :=
  (h.push node item).1 = .ok () ∧ (h.push node item).2.slots.get? node = some g ∧
    (h.push node item).2.logOf g = h.logOf g ++ [item]

theorem queues_of_room (v : h.Valid) (hc : h.connection? node = some (g, s)) (hf : 0 < s.free)
    (item : α) : h.Queues node g item := by
  obtain ⟨hg, hs⟩ := connection?_eq_some.1 hc
  rw [Queues, push_of_room v hc hf, logOf_eq hs]
  exact ⟨rfl, hg, logOf_setStream _ _ _⟩

theorem refuses_of_full (v : h.Valid) (hc : h.connection? node = some (g, s)) (hf : s.free = 0)
    (item : α) : h.Refuses node item := by
  obtain ⟨hg, hs⟩ := connection?_eq_some.1 hc
  rw [Refuses, push_of_full v hc hf]
  refine ⟨rfl, ?_⟩
  unfold disconnect
  rw [if_pos hg]
  exact Table.get?_erase_self _ _

theorem Refuses.not_queues {item : α} (hf : h.Refuses node item) : ¬ h.Queues node g item := by
  intro hq
  rw [Queues, hf.1] at hq
  exact absurd hq.1 (by simp)

/-- Buffered items count as much as room that is gathered for items still to come. -/
theorem Valid.refuses_iff (v : h.Valid) (hc : h.connection? node = some (g, s)) (item : α) :
    h.Refuses node item ↔ s.buffer.length + s.reserved = s.capacity := by
  have hb := (v.sound (connection?_eq_some.1 hc).2).bounded
  constructor
  · intro hf
    by_cases hroom : 0 < s.free
    · exact absurd (queues_of_room v hc hroom item) hf.not_queues
    · simp only [Stream.free, Stream.used] at hroom hb
      omega
  · intro he
    apply refuses_of_full v hc
    simp only [Stream.free, Stream.used]
    omega

theorem Valid.queues_iff (v : h.Valid) (hc : h.connection? node = some (g, s)) (item : α) :
    h.Queues node g item ↔ s.buffer.length + s.reserved < s.capacity := by
  have hb := (v.sound (connection?_eq_some.1 hc).2).bounded
  have hr := v.refuses_iff hc item
  simp only [Stream.used] at hb
  constructor
  · intro hq
    have hne : s.buffer.length + s.reserved ≠ s.capacity := fun he => (hr.2 he).not_queues hq
    omega
  · intro hlt
    apply queues_of_room v hc
    simp only [Stream.free, Stream.used]
    omega

/-- Only a queue with as many items as its capacity turns an item away. -/
def Delivers (h : Hub α) (node : String) (item : α) : Prop :=
  ∀ g s, h.connection? node = some (g, s) →
    (h.Refuses node item → s.buffer.length = s.capacity) ∧
      (s.buffer.length ≠ s.capacity → h.Queues node g item)

/-- An item is turned away from a queue that is not full exactly when gathered room takes up what is
left of it, and a paced push that still gathers always takes it up. -/
theorem delivers_iff (hr : h.Reachable) (hc : h.connection? node = some (g, s)) (item : α) :
    (h.Delivers node item ↔ s.reserved = 0 ∨ s.buffer.length + s.reserved < s.capacity) ∧
      ((∃ p ∈ s.paced, p.isGranted = false) → h.Refuses node item) := by
  have v := hr.valid
  have hs := v.sound (connection?_eq_some.1 hc).2
  have hb := hs.bounded
  have hrefuses := v.refuses_iff hc item
  have hqueues := v.queues_iff hc item
  simp only [Stream.used] at hb
  refine ⟨⟨?_, ?_⟩, ?_⟩
  · intro hd
    by_cases he : s.buffer.length + s.reserved = s.capacity
    · have := (hd g s hc).1 (hrefuses.2 he)
      omega
    · omega
  · intro hroom g' s' hc'
    rw [hc, Option.some.injEq, Prod.mk.injEq] at hc'
    obtain ⟨rfl, rfl⟩ := hc'
    rw [hrefuses, hqueues]
    omega
  · intro hw
    have hl := (v.listens (connection?_eq_some.1 hc).1 (connection?_eq_some.1 hc).2).2
    exact hrefuses.2 (hs.greedy hl hw)

/-! ## A replay in the way -/

/-- Two items fill half of a queue of four, and a paced push waits for room for a third. -/
def halfFull : Hub Nat :=
  run { config := { queueCapacity := 4 } }
    [.register "a", .push "a" 1, .push "a" 2, .startPaced "a" 3]

theorem halfFull_reachable : halfFull.Reachable := ⟨_, _, rfl⟩

theorem halfFull_connection :
    ∃ s, halfFull.connection? "a" = some (1, s) ∧ s.buffer = [1, 2] ∧ s.capacity = 4 ∧
      s.reserved = 2 ∧ ∃ p ∈ s.paced, p.isGranted = false := by
  refine ⟨_, rfl, ?_⟩
  decide

theorem delivers_iff_halfFull :
    ∃ s, halfFull.connection? "a" = some (1, s) ∧
      (halfFull.Delivers "a" 4 ↔ s.reserved = 0 ∨ s.buffer.length + s.reserved < s.capacity) ∧
      halfFull.Refuses "a" 4 := by
  obtain ⟨s, hc, -, -, -, hw⟩ := halfFull_connection
  have h := delivers_iff halfFull_reachable hc 4
  exact ⟨s, hc, h.1, h.2 hw⟩

/-- The fourth item is turned away although the queue holds only two. -/
theorem not_delivers_halfFull : ¬ halfFull.Delivers "a" 4 := by
  obtain ⟨s, hc, hbuffer, hcapacity, hreserved, -⟩ := halfFull_connection
  intro hd
  have hf : halfFull.Refuses "a" 4 := by
    apply refuses_of_full halfFull_reachable.valid hc
    simp [Stream.free, Stream.used, hbuffer, hcapacity, hreserved]
  have := (hd 1 s hc).1 hf
  simp [hbuffer, hcapacity] at this

end Nodecast.Hub
