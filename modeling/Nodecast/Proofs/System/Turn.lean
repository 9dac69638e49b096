import Nodecast.Proofs.System.Sound

/-!
# Turns

A turn is one step of one task. It changes what is cached under a key only if the task has the lock
of the key, and sends only what the cache holds for the node.
-/

namespace Nodecast.World

open KeyedLock (Keeps)

variable {w : World} {i : Nat} {t : Task} {c c' : Collector} {hub : Hub Event}
  {made : List Commit} {sent : Option (Nat × Event)} {spent : Option Hub.PacedRef}

/-! ## What holds between turns -/

structure Sound (w : World) : Prop where
  hub : w.hub.Valid
  kinds : ∀ {kind c}, w.collectors.get? kind = some c → c.kind = kind
  locks : ∀ {kind c}, w.collectors.get? kind = some c → c.locks.Valid
  entries : ∀ {kind c key e}, w.collectors.get? kind = some c → c.cache.get? key = some e →
    e.kind = kind
  /-- The cache holds what the last commit left. -/
  cached : ∀ {kind c}, w.collectors.get? kind = some c → ∀ key,
    c.cache.get? key = (w.lefts kind key).getLast?.join
  begun : ∀ {i t}, w.tasks.get? i = some t → i < w.nextTask ∧ t.since ≤ w.hub.nextGeneration
  tasks : ∀ {i t}, w.tasks.get? i = some t → ∃ c, w.collectors.get? t.kind = some c ∧
    t.Sound c w.hub fun key => (w.lefts t.kind key).length
  tickets : ∀ {i j t t' x}, w.tasks.get? i = some t → w.tasks.get? j = some t' →
    t.kind = t'.kind → t.ticket? = some x → t'.ticket? = some x → i = j
  pushes : ∀ {i j t t' r}, w.tasks.get? i = some t → w.tasks.get? j = some t' →
    t.push? = some r → t'.push? = some r → i = j

def ticketOf (w : World) (i : Nat) : Option Nat := (w.tasks.get? i).bind Task.ticket?

def pushOf (w : World) (i : Nat) : Option Hub.PacedRef := (w.tasks.get? i).bind Task.push?

/-- What a task may still tell the stream. -/
def owesOf (w : World) (i g : Nat) : List Event :=
  ((w.tasks.get? i).map fun t => t.owesTo g).getD []

/-- Task `i` comes to be `t` by a turn that takes its collector from `c` to `c'`. It makes the
commits `made`, sends the item `sent` and ends the paced push `spent`. -/
structure Turn (w : World) (i : Nat) (t : Task) (c c' : Collector) (hub : Hub Event)
    (made : List Commit) (sent : Option (Nat × Event)) (spent : Option Hub.PacedRef) : Prop where
  collector : w.collectors.get? t.kind = some c
  same : ∀ {t'}, w.tasks.get? i = some t' → t'.kind = t.kind
  since : t.since ≤ hub.nextGeneration
  kind : c'.kind = c.kind
  locks : c'.locks.Valid
  keeps : ∀ {x}, w.ticketOf i ≠ some x → x < c.locks.nextTicket → Keeps c.locks c'.locks x
  ticket : ∀ {x}, t.ticket? = some x → w.ticketOf i = some x ∨ c.locks.nextTicket ≤ x
  moves : Hub.Moves w.hub hub sent spent
  ends : ∀ {r}, spent = some r → w.pushOf i = some r
  push : ∀ {r}, t.push? = some r → w.pushOf i = some r ∨ w.hub.nextTicket ≤ r.ticket
  /-- Nothing is committed, or one commit is made under the lock of its key. -/
  committed : ∀ key, (leftsOf made t.kind key = [] ∧ c'.cache.get? key = c.cache.get? key) ∨
    (leftsOf made t.kind key = [c'.cache.get? key] ∧
      ∃ x, w.ticketOf i = some x ∧ c.locks.Holds x key)
  foreign : ∀ m ∈ made, m.kind = t.kind
  entries : ∀ {key e}, c'.cache.get? key = some e → e.kind = t.kind
  sound : t.Sound c' hub fun key => (leftsOf (w.commits ++ made) t.kind key).length
  /-- What is sent tells what the last commit left. -/
  speaks : ∀ {g e}, sent = some (g, e) → made = [] ∧ e.kind = t.kind ∧
    w.hub.nodeOf g = some e.node ∧ e.Tells (c.cache.get? e.key) ∧
    t.commit + 1 = (w.lefts t.kind e.key).length
  /-- A node that sees a difference is owed an event, whatever stream it has. -/
  owes : ∀ key node, shown (c'.cache.get? key) node = shown (c.cache.get? key) node ∨
    ∀ g, ∃ e ∈ t.owesTo g, e.key = key ∧ e.node = node
  /-- A stream is owed an event until it is sent, unless its node is not connected through it. -/
  pays : ∀ g, ∀ e ∈ w.owesOf i g, e ∈ t.owesTo g ∨
    (hub.slots.get? e.node = some g → sent = some (g, e))

/-! ## One turn -/

theorem get?_tasks_advance (j : Nat) :
    (w.advance i t c hub made).tasks.get? j = if j = i then some t else w.tasks.get? j :=
  Table.get?_insert _ _ _ _

theorem get?_collectors_advance (kind : Kind) :
    (w.advance i t c hub made).collectors.get? kind =
      if kind = t.kind then some c else w.collectors.get? kind :=
  Table.get?_insert _ _ _ _

theorem Sound.pushOf_ne (S : w.Sound) {j : Nat} {t' : Task} {r : Hub.PacedRef} (hj : j ≠ i)
    (ht : w.tasks.get? j = some t') (hr : t'.push? = some r) : w.pushOf i ≠ some r := by
  intro he
  obtain ⟨t0, ht0, hr0⟩ := Option.bind_eq_some_iff.1 he
  exact hj (S.pushes ht ht0 hr hr0)

namespace Turn

theorem leftsOf_foreign (T : Turn w i t c c' hub made sent spent) {kind : Kind} (h : kind ≠ t.kind)
    (key : Key) : leftsOf made kind key = [] := by
  simp only [leftsOf, List.map_eq_nil_iff, List.filter_eq_nil_iff]
  intro m hm hk
  rw [decide_eq_true_eq] at hk
  exact h (hk.1.symm.trans (T.foreign m hm))

theorem ticketOf_ne (T : Turn w i t c c' hub made sent spent) (S : w.Sound) {j x : Nat}
    {t' : Task} (hj : j ≠ i) (ht : w.tasks.get? j = some t') (hk : t'.kind = t.kind)
    (hx : t'.ticket? = some x) : w.ticketOf i ≠ some x := by
  intro he
  obtain ⟨t0, ht0, hx0⟩ := Option.bind_eq_some_iff.1 he
  exact hj (S.tickets ht ht0 (hk.trans (T.same ht0).symm) hx hx0)

theorem ticket_ne (T : Turn w i t c c' hub made sent spent) (S : w.Sound) {j x : Nat} {t' : Task}
    (hj : j ≠ i) (ht : w.tasks.get? j = some t') (hk : t'.kind = t.kind)
    (hx : t'.ticket? = some x) : t.ticket? ≠ some x := by
  intro hx'
  rcases T.ticket hx' with ho | hge
  · exact T.ticketOf_ne S hj ht hk hx ho
  · obtain ⟨d, hd, hs⟩ := S.tasks ht
    rw [hk, T.collector, Option.some.injEq] at hd
    subst hd
    obtain ⟨key, ha⟩ := hs.asks hx
    exact absurd (ha.lt (S.locks T.collector)) (Nat.not_lt_of_le hge)

theorem push_ne (T : Turn w i t c c' hub made sent spent) (S : w.Sound) {j : Nat} {t' : Task}
    {r : Hub.PacedRef} (hj : j ≠ i) (ht : w.tasks.get? j = some t') (hr : t'.push? = some r) :
    t.push? ≠ some r := by
  intro hr'
  rcases T.push hr' with ho | hge
  · exact S.pushOf_ne hj ht hr ho
  · obtain ⟨d, -, hs⟩ := S.tasks ht
    obtain ⟨e, he⟩ := hs.waits hr
    exact absurd (S.hub.item?_lt he) (Nat.not_lt_of_le hge)

theorem others (T : Turn w i t c c' hub made sent spent) (S : w.Sound) {j : Nat} {t' : Task}
    (hj : j ≠ i) (ht : w.tasks.get? j = some t') :
    ∃ d, (w.advance i t c' hub made).collectors.get? t'.kind = some d ∧
      t'.Sound d hub fun key => ((w.advance i t c' hub made).lefts t'.kind key).length := by
  obtain ⟨d, hd, hs⟩ := S.tasks ht
  have hitem : ∀ {push e}, t'.push? = some push → w.hub.item? push = some e →
      hub.item? push = some e := by
    intro push e hp he
    exact T.moves.item (fun ho => S.pushOf_ne hj ht hp (T.ends ho)) he
  by_cases hk : t'.kind = t.kind
  · rw [get?_collectors_advance, if_pos hk]
    rw [hk, T.collector, Option.some.injEq] at hd
    subst hd
    have hne : ∀ {x}, t'.ticket? = some x → w.ticketOf i ≠ some x :=
      fun hx => T.ticketOf_ne S hj ht hk hx
    refine ⟨c', rfl, hs.frame T.kind ?_ ?_ T.moves.node hitem⟩
    · intro x hx
      obtain ⟨key, ha⟩ := hs.asks hx
      exact T.keeps (hne hx) (ha.lt (S.locks T.collector))
    · intro x key hx hh
      rw [lefts_advance]
      rcases T.committed key with ⟨hm, hc⟩ | ⟨-, x', hx', hh'⟩
      · rw [hk, hm, hc, List.append_nil]
        exact ⟨rfl, rfl⟩
      · -- Only one task has the lock of the key.
        obtain rfl := (S.locks T.collector).holds_unique hh hh'
        exact absurd hx' (hne hx)
  · rw [get?_collectors_advance, if_neg hk]
    refine ⟨d, hd, hs.frame rfl (fun _ _ _ => ⟨id, id⟩) ?_ T.moves.node hitem⟩
    intro x key _ _
    rw [lefts_advance, T.leftsOf_foreign hk, List.append_nil]
    exact ⟨rfl, rfl⟩

end Turn

theorem Sound.advance (S : w.Sound) (T : Turn w i t c c' hub made sent spent) :
    (w.advance i t c' hub made).Sound where
  hub := T.moves.valid
  kinds := by
    intro kind d hd
    rw [get?_collectors_advance] at hd
    split at hd
    · next e =>
      cases hd
      rw [T.kind, e]
      exact S.kinds T.collector
    · exact S.kinds hd
  locks := by
    intro kind d hd
    rw [get?_collectors_advance] at hd
    split at hd
    · cases hd
      exact T.locks
    · exact S.locks hd
  entries := by
    intro kind d key e hd he
    rw [get?_collectors_advance] at hd
    split at hd
    · next hk =>
      cases hd
      exact (T.entries he).trans hk.symm
    · exact S.entries hd he
  cached := by
    intro kind d hd key
    rw [get?_collectors_advance] at hd
    rw [lefts_advance]
    split at hd
    · next hk =>
      subst hk
      cases hd
      rcases T.committed key with ⟨hm, hc⟩ | ⟨hm, -⟩
      · rw [hm, hc, List.append_nil]
        exact S.cached T.collector key
      · simp [hm]
    · next hk =>
      rw [T.leftsOf_foreign hk, List.append_nil]
      exact S.cached hd key
  begun := by
    intro j t' ht
    rw [get?_tasks_advance] at ht
    show j < max w.nextTask (i + 1) ∧ t'.since ≤ hub.nextGeneration
    split at ht
    · next e =>
      cases ht
      exact ⟨by omega, T.since⟩
    · have := S.begun ht
      exact ⟨by omega, Nat.le_trans this.2 T.moves.generation⟩
  tasks := by
    intro j t' ht
    rw [get?_tasks_advance] at ht
    split at ht
    · cases ht
      refine ⟨c', ?_, T.sound⟩
      rw [get?_collectors_advance, if_pos rfl]
    · next hj => exact T.others S hj ht
  tickets := by
    intro j j' t1 t2 x h1 h2 hk hx1 hx2
    rw [get?_tasks_advance] at h1 h2
    split at h1 <;> split at h2
    · simp [*]
    · next hj =>
      cases h1
      exact absurd hx1 (T.ticket_ne S hj h2 hk.symm hx2)
    · next hj _ =>
      cases h2
      exact absurd hx2 (T.ticket_ne S hj h1 hk hx1)
    · exact S.tickets h1 h2 hk hx1 hx2
  pushes := by
    intro j j' t1 t2 r h1 h2 hp1 hp2
    rw [get?_tasks_advance] at h1 h2
    split at h1 <;> split at h2
    · simp [*]
    · next hj =>
      cases h1
      exact absurd hp1 (T.push_ne S hj h2 hp2)
    · next hj _ =>
      cases h2
      exact absurd hp2 (T.push_ne S hj h1 hp1)
    · exact S.pushes h1 h2 hp1 hp2

end Nodecast.World
