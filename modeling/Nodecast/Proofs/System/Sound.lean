import Nodecast.Proofs.Hub.Pushes
import Nodecast.Proofs.Locks
import Nodecast.Proofs.System.World
import Nodecast.Proofs.Transitions

/-!
# What every task may rely on

A task that has the lock of a key finds under the key what it found there before, whatever other
tasks do meanwhile.
-/

namespace Nodecast

open KeyedLock (Keeps)

variable {c c' : Collector} {hub hub' : Hub Event} {count count' : Key → Nat} {n n' commit : Nat}
  {y : Cycle} {r : Replay} {t : Task} {ticket x : Nat} {key : Key}

/-! ## Tasks -/

/-- The cycle has the lock, and what it has yet to push tells what the last commit left. -/
def Cycle.Speaks (y : Cycle) (c : Collector) (n commit : Nat) (events : List Event) : Prop :=
  c.locks.Holds y.ticket y.key ∧ commit + 1 = n ∧
    ∀ e ∈ events, e.kind = c.kind ∧ e.key = y.key ∧ e.Tells (c.cache.get? y.key)

/-- `n` is the number of commits under the key of the cycle. -/
def Cycle.Sound (y : Cycle) (c : Collector) (hub : Hub Event) (n commit : Nat) : Prop :=
  match y.stage with
  | .locking => c.locks.Asks y.ticket y.key
  | .fetching => c.locks.Holds y.ticket y.key
  | .resolving _ prior => c.locks.Holds y.ticket y.key ∧ prior = c.cache.get? y.key
  | .committing hadPrior t => c.locks.Holds y.ticket y.key ∧
      hadPrior = (c.cache.get? y.key).isSome ∧ t.LeadsFrom c.kind (c.cache.get? y.key)
  | .pushing _ rest => y.Speaks c n commit rest
  | .offering _ g e rest => y.Speaks c n commit (e :: rest) ∧ hub.nodeOf g = some e.node
  | .ended _ => True

/-- `count` is the number of commits under each key. -/
def Replay.Sound (r : Replay) (c : Collector) (hub : Hub Event) (count : Key → Nat)
    (commit : Nat) : Prop :=
  match r.stage with
  | .listing _ | .visiting | .ended => True
  | .locking key ticket => c.locks.Asks ticket key
  | .reaching key ticket g e => c.locks.Holds ticket key ∧ commit + 1 = count key ∧
      hub.nodeOf g = some r.node ∧ ∃ entry, c.cache.get? key = some entry ∧
        r.node ∈ entry.nodes ∧ e = entry.eventFor key r.node .added
  | .pacing key ticket push => c.locks.Holds ticket key ∧ commit + 1 = count key ∧
      hub.nodeOf push.generation = some r.node ∧ ∃ entry, c.cache.get? key = some entry ∧
        r.node ∈ entry.nodes ∧ hub.item? push = some (entry.eventFor key r.node .added)

def Task.Sound (t : Task) (c : Collector) (hub : Hub Event) (count : Key → Nat) : Prop :=
  match t.activity with
  | .cycle y => y.Sound c hub (count y.key) t.commit
  | .replay r => r.Sound c hub count t.commit

theorem Cycle.Sound.asks (h : y.Sound c hub n commit) (hx : y.ticket? = some x) :
    c.locks.Asks x y.key := by
  unfold Cycle.Sound at h
  unfold Cycle.ticket? at hx
  cases hs : y.stage <;> simp only [hs, Option.some.injEq, reduceCtorEq] at h hx <;> subst hx
  case locking => exact h
  case fetching => exact h.asks
  case resolving => exact h.1.asks
  case committing => exact h.1.asks
  case pushing => exact h.1.asks
  case offering => exact h.1.1.asks

theorem Replay.Sound.asks (h : r.Sound c hub count commit) (hx : r.ticket? = some x) :
    ∃ key, c.locks.Asks x key := by
  unfold Replay.Sound at h
  unfold Replay.ticket? at hx
  cases hs : r.stage <;> simp only [hs, Option.some.injEq, reduceCtorEq] at h hx <;> subst hx
  case locking key _ => exact ⟨key, h⟩
  case reaching key _ _ _ => exact ⟨key, h.1.asks⟩
  case pacing key _ _ => exact ⟨key, h.1.asks⟩

theorem Task.Sound.asks (h : t.Sound c hub count) (hx : t.ticket? = some x) :
    ∃ key, c.locks.Asks x key := by
  unfold Task.Sound at h
  unfold Task.ticket? at hx
  cases ha : t.activity <;> simp only [ha] at h hx
  case cycle y => exact ⟨y.key, h.asks hx⟩
  case replay r => exact h.asks hx

theorem Task.Sound.waits (h : t.Sound c hub count) {push : Hub.PacedRef}
    (hp : t.push? = some push) : ∃ e, hub.item? push = some e := by
  unfold Task.Sound at h
  unfold Task.push? at hp
  cases ha : t.activity <;> simp only [ha, reduceCtorEq] at h hp
  next r =>
    unfold Replay.Sound at h
    unfold Replay.push? at hp
    cases hs : r.stage <;> simp only [hs, Option.some.injEq, reduceCtorEq] at h hp
    subst hp
    obtain ⟨-, -, -, entry, -, -, hi⟩ := h
    exact ⟨_, hi⟩

/-! ## What other tasks leave as it is -/

theorem Cycle.Speaks.frame {events : List Event} (h : y.Speaks c n commit events)
    (hkind : c'.kind = c.kind) (hkeep : Keeps c.locks c'.locks y.ticket)
    (hsame : c.locks.Holds y.ticket y.key →
      c'.cache.get? y.key = c.cache.get? y.key ∧ n' = n) : y.Speaks c' n' commit events := by
  obtain ⟨hh, hn, he⟩ := h
  rw [Speaks, (hsame hh).1, (hsame hh).2, hkind]
  exact ⟨(hkeep y.key).2 hh, hn, he⟩

theorem Cycle.Sound.frame (h : y.Sound c hub n commit) (hkind : c'.kind = c.kind)
    (hkeep : ∀ x, y.ticket? = some x → Keeps c.locks c'.locks x)
    (hsame : ∀ x, y.ticket? = some x → c.locks.Holds x y.key →
      c'.cache.get? y.key = c.cache.get? y.key ∧ n' = n)
    (hnode : ∀ {g node}, hub.nodeOf g = some node → hub'.nodeOf g = some node) :
    y.Sound c' hub' n' commit := by
  unfold Cycle.Sound at h ⊢
  unfold Cycle.ticket? at hkeep hsame
  cases hs : y.stage <;> simp only [hs, Option.some.injEq, forall_eq'] at h hkeep hsame ⊢
  case locking => exact (hkeep y.key).1 h
  case fetching => exact (hkeep y.key).2 h
  case resolving =>
    obtain ⟨hh, hp⟩ := h
    rw [(hsame hh).1]
    exact ⟨(hkeep y.key).2 hh, hp⟩
  case committing =>
    obtain ⟨hh, hp, ht⟩ := h
    rw [(hsame hh).1, hkind]
    exact ⟨(hkeep y.key).2 hh, hp, ht⟩
  case pushing => exact h.frame hkind hkeep hsame
  case offering => exact ⟨h.1.frame hkind hkeep hsame, hnode h.2⟩

theorem Replay.Sound.frame (h : r.Sound c hub count commit)
    (hkeep : ∀ x, r.ticket? = some x → Keeps c.locks c'.locks x)
    (hsame : ∀ x key, r.ticket? = some x → c.locks.Holds x key →
      c'.cache.get? key = c.cache.get? key ∧ count' key = count key)
    (hnode : ∀ {g node}, hub.nodeOf g = some node → hub'.nodeOf g = some node)
    (hitem : ∀ {push e}, r.push? = some push → hub.item? push = some e →
      hub'.item? push = some e) : r.Sound c' hub' count' commit := by
  unfold Replay.Sound at h ⊢
  unfold Replay.ticket? at hkeep hsame
  unfold Replay.push? at hitem
  cases hs : r.stage <;> simp only [hs, Option.some.injEq, forall_eq'] at h hkeep hsame hitem ⊢
  case locking key ticket => exact (hkeep key).1 h
  case reaching key ticket g e =>
    obtain ⟨hh, hn, hg, entry, hc, hm, he⟩ := h
    have hkey := hsame ticket key rfl hh
    rw [hkey.1, hkey.2]
    exact ⟨(hkeep key).2 hh, hn, hnode hg, entry, hc, hm, he⟩
  case pacing key ticket push =>
    obtain ⟨hh, hn, hg, entry, hc, hm, hi⟩ := h
    have hkey := hsame ticket key rfl hh
    rw [hkey.1, hkey.2]
    exact ⟨(hkeep key).2 hh, hn, hnode hg, entry, hc, hm, hitem rfl hi⟩

theorem Task.Sound.frame (h : t.Sound c hub count) (hkind : c'.kind = c.kind)
    (hkeep : ∀ x, t.ticket? = some x → Keeps c.locks c'.locks x)
    (hsame : ∀ x key, t.ticket? = some x → c.locks.Holds x key →
      c'.cache.get? key = c.cache.get? key ∧ count' key = count key)
    (hnode : ∀ {g node}, hub.nodeOf g = some node → hub'.nodeOf g = some node)
    (hitem : ∀ {push e}, t.push? = some push → hub.item? push = some e →
      hub'.item? push = some e) : t.Sound c' hub' count' := by
  unfold Task.Sound at h ⊢
  unfold Task.ticket? at hkeep hsame
  unfold Task.push? at hitem
  cases ha : t.activity <;> simp only [ha] at h hkeep hsame hitem ⊢
  case cycle y => exact h.frame hkind hkeep (fun x => hsame x y.key) hnode
  case replay r => exact h.frame hkeep hsame hnode hitem

end Nodecast
