import Nodecast.Proofs.System.Watched

/-!
# What is to become of an object

As long as somebody is going to look at an object, its entry may be out of date. Otherwise the cache
holds what it ought to or is about to, unless the end of the object was overlooked.
-/

namespace Nodecast

open KeyedLock (Keeps)

variable {w w' : Watched} {i j : Nat} {t : Task} {y y' : Cycle} {kind : Kind} {key : Key}
  {v v' : Option Entry}

theorem Task.cycle?_eq_some : t.cycle? kind = some y ↔ t.kind = kind ∧ t.activity = .cycle y := by
  unfold Task.cycle?
  cases t.activity with
  | cycle y' => simp
  | replay r => simp

namespace Watched

/-! ## The cycles of a key -/

theorem cycle?_eq_some : w.cycle? i = some y ↔
    ∃ t, w.tasks.get? i = some t ∧ t.kind = w.kind ∧ t.activity = .cycle y := by
  simp only [cycle?, Option.bind_eq_some_iff, Task.cycle?_eq_some]

theorem mem_cycles : y ∈ w.cycles ↔ ∃ i, w.cycle? i = some y := by
  simp only [cycles, List.mem_filterMap, Table.mem_values_iff, cycle?, Option.bind_eq_some_iff]
  constructor
  · rintro ⟨t, ⟨i, hi⟩, ht⟩
    exact ⟨i, t, hi, ht⟩
  · rintro ⟨i, t, hi, ht⟩
    exact ⟨t, ⟨i, hi⟩, ht⟩

/-- Some cycle for the key is as described. -/
def Runs (w : Watched) (key : Key) (P : Cycle → Prop) : Prop :=
  ∃ i y, w.cycle? i = some y ∧ y.key = key ∧ P y

/-- Some cycle is going to leave this under the key. -/
def Brings (w : Watched) (key : Key) (v : Option Entry) : Prop :=
  w.Runs key fun y => y.brings? w.kind w.nodes = some v

theorem looks_iff : w.looks key = true ↔ (∃ n ∈ w.feed, n.about? = some key) ∨
    w.router.waits w.kind key = true ∨ key ∈ w.retries ∨ w.Runs key fun y => y.isAhead = true := by
  have hruns : (∃ y ∈ w.cycles, y.key = key ∧ y.isAhead = true) ↔
      w.Runs key fun y => y.isAhead = true := by
    constructor
    · rintro ⟨y, hy, hk⟩
      obtain ⟨i, hi⟩ := mem_cycles.1 hy
      exact ⟨i, y, hi, hk⟩
    · rintro ⟨i, y, hi, hk⟩
      exact ⟨y, mem_cycles.2 ⟨i, hi⟩, hk⟩
  simp only [looks, Bool.or_eq_true, List.any_eq_true, decide_eq_true_eq, List.contains_iff_mem,
    Bool.and_eq_true, hruns, or_assoc]

theorem mem_overlooked : key ∈ w.overlooked ↔
    (∃ e, w.Brings key (some e)) ∧ w.api.get? key = none ∧ w.looks key = false := by
  have hcarries : ∀ y, w.carries y = true ↔ ∃ e, y.brings? w.kind w.nodes = some (some e) := by
    intro y
    simp only [carries, Option.any_eq_true, Option.isSome_iff_exists]
    constructor
    · rintro ⟨v, hv, e, rfl⟩
      exact ⟨e, hv⟩
    · rintro ⟨e, he⟩
      exact ⟨_, he, e, rfl⟩
  simp only [overlooked, List.mem_map, List.mem_filter, Bool.and_eq_true, Bool.not_eq_true',
    hcarries, Table.contains, Option.isSome_eq_false_iff, Option.isNone_iff_eq_none]
  constructor
  · rintro ⟨y, ⟨hy, ⟨⟨e, he⟩, hapi⟩, hlooks⟩, rfl⟩
    obtain ⟨i, hi⟩ := mem_cycles.1 hy
    exact ⟨⟨e, i, y, hi, rfl, he⟩, hapi, hlooks⟩
  · rintro ⟨⟨e, i, y, hi, rfl, he⟩, hapi, hlooks⟩
    exact ⟨y, ⟨mem_cycles.2 ⟨i, hi⟩, ⟨⟨e, he⟩, hapi⟩, hlooks⟩, rfl⟩

/-! ## One cycle at a time has the lock -/

theorem holds_of_brings {c : Collector} {hub : Hub Event} {n commit : Nat}
    {nodes : Key → Tracked → NodeSet} (h : y.Sound c hub n commit)
    (hv : y.brings? kind nodes = some v) :
    c.locks.Holds y.ticket y.key ∧ y.ticket? = some y.ticket ∧ y.isAhead = false := by
  unfold Cycle.Sound at h
  unfold Cycle.brings? at hv
  unfold Cycle.ticket? Cycle.isAhead
  cases hs : y.stage <;> simp only [hs, reduceCtorEq] at h hv
  case resolving => exact ⟨h.1, rfl, rfl⟩
  case committing => exact ⟨h.1, rfl, rfl⟩

theorem eq_of_holds {w : World} (S : w.Sound) {t t' : Task} {c : Collector} {x x' : Nat}
    (ht : w.tasks.get? i = some t) (ht' : w.tasks.get? j = some t') (hk : t.kind = t'.kind)
    (hc : w.collectors.get? t.kind = some c) (hx : t.ticket? = some x) (hx' : t'.ticket? = some x')
    (h : c.locks.Holds x key) (h' : c.locks.Holds x' key) : i = j := by
  obtain rfl := (S.locks hc).holds_unique h h'
  exact S.tickets ht ht' hk hx hx'

theorem eq_of_brings (S : w.toWorld.Sound) {c : Collector}
    (hc : w.collectors.get? w.kind = some c) (hi : w.cycle? i = some y)
    (hx : y.ticket? = some y.ticket) (h : c.locks.Holds y.ticket y.key)
    (hj : w.cycle? j = some y') (hk : y'.key = y.key)
    (hv : y'.brings? w.kind w.nodes = some v) : i = j := by
  obtain ⟨t, ht, hkind, ha⟩ := cycle?_eq_some.1 hi
  obtain ⟨t', ht', hkind', ha'⟩ := cycle?_eq_some.1 hj
  obtain ⟨d, hd, hs⟩ := S.tasks ht'
  rw [hkind', hc, Option.some.injEq] at hd
  subst hd
  simp only [Task.Sound, ha'] at hs
  obtain ⟨h', hx', -⟩ := holds_of_brings hs hv
  rw [hk] at h'
  refine eq_of_holds S ht ht' (hkind.trans hkind'.symm) (hkind ▸ hc) ?_ ?_ h h'
  · rwa [Task.ticket?, ha]
  · rwa [Task.ticket?, ha']

/-! ## What holds of every object -/

structure Fair (w : Watched) (key : Key) : Prop where
  /-- A look is still to come, or the cache is or is going to be as it ought to, unless the end of
  the object was overlooked. -/
  right : w.looks key = true ∨ key ∈ w.missed ∨ w.Brings key (w.wanted key) ∨
    ((∀ v, ¬w.Brings key v) ∧ w.cached key = w.wanted key)
  /-- An object whose end was overlooked is cached or going to be cached, and stays so. -/
  stale : key ∈ w.missed → w.api.get? key = none ∧ w.looks key = false ∧
    ((∃ e, w.Brings key (some e)) ∨ ((∀ v, ¬w.Brings key v) ∧ ∃ e, w.cached key = some e))

theorem Fair.of_looks (h : w.looks key = true) (hm : key ∉ w.missed) : w.Fair key :=
  ⟨Or.inl h, fun hk => absurd hk hm⟩

theorem Fair.not_missed (h : w.Fair key) (hl : w.looks key = true) : key ∉ w.missed := by
  intro hm
  have hno := (h.stale hm).2.1
  rw [hl] at hno
  contradiction

/-- Nothing has changed that concerns the object. -/
structure Same (w w' : Watched) (key : Key) : Prop where
  kind : w'.kind = w.kind
  nodes : w'.nodes = w.nodes
  api : w'.api.get? key = w.api.get? key
  cached : w'.cached key = w.cached key
  missed : key ∈ w'.missed ↔ key ∈ w.missed
  looks : w'.looks key = true ↔ w.looks key = true
  brings : ∀ v, w'.Brings key v ↔ w.Brings key v

theorem Same.wanted (h : Same w w' key) : w'.wanted key = w.wanted key := by
  simp only [Watched.wanted, h.kind, h.nodes, h.api]

theorem Fair.same (h : w.Fair key) (s : Same w w' key) : w'.Fair key where
  right := by
    rw [s.looks, s.missed, s.wanted, s.cached, s.brings]
    simp only [s.brings]
    exact h.right
  stale := by
    rw [s.missed, s.api, s.cached, ← Bool.not_eq_true, s.looks, Bool.not_eq_true]
    simp only [s.brings]
    exact h.stale

/-- When nobody is going to do anything, the cache holds what it ought to except for objects whose
end was overlooked. -/
theorem Fair.cached_iff (h : w.Fair key) (hl : w.looks key = false) (hb : ∀ v, ¬w.Brings key v) :
    w.cached key = w.wanted key ↔ key ∉ w.missed := by
  constructor
  · intro he hm
    obtain ⟨hapi, -, ⟨e, hb'⟩ | ⟨-, e, hc⟩⟩ := h.stale hm
    · exact hb _ hb'
    · rw [hc, Watched.wanted, hapi] at he
      contradiction
  · intro hm
    obtain hl' | hm' | hb' | ⟨-, he⟩ := h.right
    · rw [hl] at hl'
      contradiction
    · exact absurd hm' hm
    · exact absurd hb' (hb _)
    · exact he

end Watched

end Nodecast
