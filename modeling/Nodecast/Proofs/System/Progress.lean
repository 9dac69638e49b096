import Nodecast.Proofs.System.Watching

/-!
# How a cycle goes on

A cycle that is going to look either sees what is right, fails and is tried again, or finds nothing
to do. What it has seen it brings to the cache, where nobody else brings anything meanwhile.
-/

namespace Nodecast

/-- Another try of the key may help. -/
def Cycle.HasFailed (y : Cycle) : Prop := ∃ e, y.outcome? = some (.error e) ∧ e.isRetryable = true

namespace Watched

variable {w w' : Watched} {i : Nat} {y y' : Cycle} {c c' : Collector} {key : Key} {v : Option Entry}

/-! ## A cycle and all others -/

theorem looks_of_cycle (hi : w.cycle? i = some y) : w.looks key = true ↔
    (∃ n ∈ w.feed, n.about? = some key) ∨ w.router.waits w.kind key = true ∨ key ∈ w.retries ∨
      (y.key = key ∧ y.isAhead = true) ∨
      ∃ j z, j ≠ i ∧ w.cycle? j = some z ∧ z.key = key ∧ z.isAhead = true := by
  rw [looks_iff, runs_iff i, hi]
  simp

theorem brings_of_cycle (hi : w.cycle? i = some y) : w.Brings key v ↔
    (y.key = key ∧ y.brings? w.kind w.nodes = some v) ∨
      ∃ j z, j ≠ i ∧ w.cycle? j = some z ∧ z.key = key ∧ z.brings? w.kind w.nodes = some v := by
  rw [Brings, runs_iff i, hi]
  simp

theorem not_brings_of_holds (S : w.toWorld.Sound) (hc : w.collectors.get? w.kind = some c)
    (hi : w.cycle? i = some y) (hx : y.ticket? = some y.ticket)
    (h : c.locks.Holds y.ticket y.key) (v : Option Entry) :
    ¬∃ j z, j ≠ i ∧ w.cycle? j = some z ∧ z.key = y.key ∧ z.brings? w.kind w.nodes = some v := by
  rintro ⟨j, z, hj, hcyc, hk, hv⟩
  exact hj (eq_of_brings S hc hi hx h hcyc hk hv).symm

/-! ## One move -/

/-- A cycle has made a move, and the queue knows if it failed. -/
structure Goes (w w' : Watched) (i : Nat) (y y' : Cycle) (c c' : Collector) : Prop where
  kind : w'.kind = w.kind
  nodes : w'.nodes = w.nodes
  api : w'.api = w.api
  feed : w'.feed = w.feed
  missed : w'.missed = w.missed
  waits : ∀ k, w'.router.waits w.kind k = w.router.waits w.kind k
  retries : ∀ k, k ∈ w'.retries ↔ k ∈ w.retries ∨ (k = y.key ∧ y'.HasFailed)
  before : w.cycle? i = some y
  now : w'.cycle? i = some y'
  others : ∀ j, j ≠ i → w'.cycle? j = w.cycle? j
  key : y'.key = y.key
  collector : w.collectors.get? w.kind = some c
  collector' : w'.collectors.get? w.kind = some c'
  cache : ∀ k, k ≠ y.key → c'.cache.get? k = c.cache.get? k

namespace Goes

variable (g : Goes w w' i y y' c c')

include g

theorem wanted (k : Key) : w'.wanted k = w.wanted k := by
  simp only [Watched.wanted, g.kind, g.nodes, g.api]

theorem cached : w.cached key = c.cache.get? key := by
  rw [Watched.cached, g.collector]
  rfl

theorem cached' : w'.cached key = c'.cache.get? key := by
  rw [Watched.cached, g.kind, g.collector']
  rfl

theorem runs_others (P : Cycle → Prop) :
    (∃ j z, j ≠ i ∧ w'.cycle? j = some z ∧ z.key = key ∧ P z) ↔
      ∃ j z, j ≠ i ∧ w.cycle? j = some z ∧ z.key = key ∧ P z := by
  refine exists_congr fun j => exists_congr fun z => and_congr_right fun hj => ?_
  rw [g.others j hj]

theorem looks_iff : w'.looks key = true ↔ (∃ n ∈ w.feed, n.about? = some key) ∨
    w.router.waits w.kind key = true ∨ (key ∈ w.retries ∨ (key = y.key ∧ y'.HasFailed)) ∨
    (y.key = key ∧ y'.isAhead = true) ∨
    ∃ j z, j ≠ i ∧ w.cycle? j = some z ∧ z.key = key ∧ z.isAhead = true := by
  rw [looks_of_cycle g.now, g.runs_others, g.key, g.retries, g.feed, g.kind, g.waits]

theorem brings_iff : w'.Brings key v ↔ (y.key = key ∧ y'.brings? w.kind w.nodes = some v) ∨
    ∃ j z, j ≠ i ∧ w.cycle? j = some z ∧ z.key = key ∧ z.brings? w.kind w.nodes = some v := by
  rw [brings_of_cycle g.now, g.key, g.kind, g.nodes, g.runs_others]

theorem same_of_ne (hk : key ≠ y.key) : Same w w' key where
  kind := g.kind
  nodes := g.nodes
  api := by rw [g.api]
  cached := by rw [g.cached', g.cache key hk, g.cached]
  missed := by rw [g.missed]
  looks := by
    rw [g.looks_iff, looks_of_cycle g.before]
    simp [hk, Ne.symm hk]
  brings := by
    intro v
    rw [g.brings_iff, brings_of_cycle g.before]
    simp [Ne.symm hk]

theorem same_of_stays (hahead : y'.isAhead = y.isAhead)
    (hbrings : y'.brings? w.kind w.nodes = y.brings? w.kind w.nodes)
    (hcache : c'.cache.get? y.key = c.cache.get? y.key) (hf : ¬y'.HasFailed) :
    Same w w' y.key where
  kind := g.kind
  nodes := g.nodes
  api := by rw [g.api]
  cached := by rw [g.cached', hcache, g.cached]
  missed := by rw [g.missed]
  looks := by
    rw [g.looks_iff, looks_of_cycle g.before, hahead]
    simp [hf]
  brings := by
    intro v
    rw [g.brings_iff, brings_of_cycle g.before, hbrings]

theorem not_missed (h : w.Fair y.key) (hahead : y.isAhead = true) : y.key ∉ w'.missed := by
  rw [g.missed]
  exact h.not_missed ((looks_of_cycle g.before).2 (Or.inr (Or.inr (Or.inr (Or.inl ⟨rfl, hahead⟩)))))

theorem fair_of_sees (h : w.Fair y.key) (hahead : y.isAhead = true)
    (hv : y'.brings? w.kind w.nodes = some (w.wanted y.key)) : w'.Fair y.key := by
  refine ⟨Or.inr (Or.inr (Or.inl ?_)), fun hm => absurd hm (g.not_missed h hahead)⟩
  rw [g.wanted]
  exact g.brings_iff.2 (Or.inl ⟨rfl, hv⟩)

theorem fair_of_fails (h : w.Fair y.key) (hahead : y.isAhead = true) (hf : y'.HasFailed) :
    w'.Fair y.key :=
  .of_looks (g.looks_iff.2 (Or.inr (Or.inr (Or.inl (Or.inr ⟨rfl, hf⟩))))) (g.not_missed h hahead)

theorem not_brings (S : w.toWorld.Sound) (hx : y.ticket? = some y.ticket)
    (hh : c.locks.Holds y.ticket y.key) (hv : y'.brings? w.kind w.nodes = none) (v : Option Entry) :
    ¬w'.Brings y.key v := by
  intro hb
  obtain ⟨-, hb⟩ | hb := g.brings_iff.1 hb
  · rw [hv] at hb
    contradiction
  · exact not_brings_of_holds S g.collector g.before hx hh v hb

theorem fair_of_clear (S : w.toWorld.Sound) (h : w.Fair y.key) (hahead : y.isAhead = true)
    (hx : y.ticket? = some y.ticket) (hh : c.locks.Holds y.ticket y.key)
    (hv : y'.brings? w.kind w.nodes = none) (hcache : c'.cache.get? y.key = w.wanted y.key) :
    w'.Fair y.key := by
  refine ⟨Or.inr (Or.inr (Or.inr ⟨g.not_brings S hx hh hv, ?_⟩)),
    fun hm => absurd hm (g.not_missed h hahead)⟩
  rw [g.cached', hcache, g.wanted]

theorem fair_of_commits (S : w.toWorld.Sound) (h : w.Fair y.key)
    (hb : y.brings? w.kind w.nodes = some v) (hahead : y.isAhead = false)
    (hx : y.ticket? = some y.ticket) (hh : c.locks.Holds y.ticket y.key)
    (hahead' : y'.isAhead = false) (hb' : y'.brings? w.kind w.nodes = none) (hf : ¬y'.HasFailed)
    (hcache : c'.cache.get? y.key = v) : w'.Fair y.key := by
  have hbrought : w.Brings y.key v := (brings_of_cycle g.before).2 (Or.inl ⟨rfl, hb⟩)
  -- No other cycle brings anything while this one has the lock.
  have honly : ∀ v', w.Brings y.key v' → v' = v := by
    intro v' hv'
    obtain ⟨-, hv'⟩ | hv' := (brings_of_cycle g.before).1 hv'
    · rw [hb, Option.some.injEq] at hv'
      exact hv'.symm
    · exact absurd hv' (not_brings_of_holds S g.collector g.before hx hh v')
  have hnone := g.not_brings S hx hh hb'
  have hlooks : w'.looks y.key = true ↔ w.looks y.key = true := by
    rw [g.looks_iff, looks_of_cycle g.before, hahead, hahead']
    simp [hf]
  refine ⟨?_, fun hm => ?_⟩
  · rw [hlooks, g.missed, g.wanted]
    obtain hl | hm | hw | ⟨hno, -⟩ := h.right
    · exact Or.inl hl
    · exact Or.inr (Or.inl hm)
    · refine Or.inr (Or.inr (Or.inr ⟨hnone, ?_⟩))
      rw [g.cached', hcache, honly _ hw]
    · exact absurd hbrought (hno v)
  · rw [g.missed] at hm
    obtain ⟨hapi, hl, ⟨e, he⟩ | ⟨hno, -⟩⟩ := h.stale hm
    · refine ⟨by rwa [g.api], ?_, Or.inr ⟨hnone, e, ?_⟩⟩
      · rwa [← Bool.not_eq_true, hlooks, Bool.not_eq_true]
      · rw [g.cached', hcache, honly _ he]
    · exact absurd hbrought (hno v)

end Goes

end Watched

end Nodecast
