import Nodecast.Proofs.System.Fair

/-!
# Watching

What is told of an object is followed by a look at it: the notice makes its key wait, a worker takes
the key, and the cycle that begins is going to ask the API.
-/

namespace Nodecast

/-! ## What the system does not look at -/

namespace World

variable {w w' : World}

theorem Sound.withRouter (S : w.Sound) (router : Router) : Sound { w with router } :=
  ⟨S.hub, S.kinds, S.locks, S.entries, S.cached, S.begun, S.tasks, S.tickets, S.pushes⟩

end World

namespace Watched

variable {w w' : Watched} {i : Nat} {y y' : Cycle} {key : Key} {n : Notice}

/-! ## Steps of the watch -/

/-- What holds in every state that the system comes to. -/
structure Valid (w : Watched) : Prop where
  sound : w.toWorld.Sound
  serves : w.router.Serves w.kind
  enabled : ∃ c, w.collectors.get? w.kind = some c
  named : ∀ {key o}, w.api.get? key = some o → o.metadata.key? = some key
  news : ∀ n ∈ w.feed, ∃ key, n.about? = some key
  needed : ∀ key o, (w.nodes key o).isEmpty = false
  fair : ∀ key, w.Fair key

theorem Valid.announce (V : w.Valid) {api : Table Key Tracked}
    (hnamed : ∀ {k o}, api.get? k = some o → o.metadata.key? = some k)
    (hapi : ∀ k, k ≠ key → api.get? k = w.api.get? k) (hn : n.about? = some key) :
    Valid { w with api, feed := w.feed ++ [n], missed := w.missed.filter (· ≠ key) } where
  sound := V.sound
  serves := V.serves
  enabled := V.enabled
  named := hnamed
  news := by
    intro n' hn'
    rcases List.mem_append.1 hn' with hn' | hn'
    · exact V.news n' hn'
    · rw [List.mem_singleton.1 hn']
      exact ⟨key, hn⟩
  needed := V.needed
  fair := by
    intro k
    by_cases hk : k = key
    · subst hk
      exact .of_looks (looks_iff.2 (Or.inl ⟨n, by simp, hn⟩)) (by simp)
    · refine (V.fair k).same ⟨rfl, rfl, hapi k hk, rfl, by simp [hk], ?_, fun _ => Iff.rfl⟩
      have hfeed : (∃ n' ∈ w.feed ++ [n], n'.about? = some k) ↔
          ∃ n' ∈ w.feed, n'.about? = some k := by
        simp [or_and_right, exists_or, hn, Ne.symm hk]
      rw [looks_iff, looks_iff]
      exact or_congr_left hfeed

/-- It does not matter how it is known that somebody is going to look. -/
theorem Valid.handOn (V : w.Valid) {router : Router} {feed : List Notice} {retries : List Key}
    (hserves : router.Serves w.kind) (hnews : ∀ n ∈ feed, ∃ key, n.about? = some key)
    (hlooks : ∀ k, looks { w with router, feed, retries } k = true ↔ w.looks k = true) :
    Valid { w with router, feed, retries } where
  sound := V.sound.withRouter router
  serves := hserves
  enabled := V.enabled
  named := V.named
  news := hnews
  needed := V.needed
  fair := fun k => (V.fair k).same
    ⟨rfl, rfl, rfl, rfl, Iff.rfl, hlooks k, fun _ => Iff.rfl⟩

theorem react_eq (w : Watched) (n : Notice) : w.react n =
    { w with router := w.router.triggerAll w.kind (n.triggered w.toDaemon w.kind) } := by
  unfold react
  rw [Reaction.perform_plain]

theorem Valid.deliver (V : w.Valid) {rest : List Notice} (hf : w.feed = n :: rest) :
    Valid { w.react n with feed := rest } := by
  have hnews := V.news
  rw [hf] at hnews
  obtain ⟨key, hn⟩ := hnews n List.mem_cons_self
  rw [react_eq, n.triggered_of_about? hn]
  refine V.handOn (V.serves.triggerAll [key]) ?_ ?_
  · exact fun n' hn' => hnews n' (List.mem_cons_of_mem _ hn')
  intro k
  rw [looks_iff, looks_iff, hf]
  show (∃ n' ∈ rest, n'.about? = some k) ∨
    (w.router.triggerAll w.kind [key]).waits w.kind k = true ∨ k ∈ w.retries ∨ _ ↔ _
  rw [V.serves.waits_triggerAll]
  have hkey : n.about? = some k ↔ k = key := by
    rw [hn, Option.some.injEq]
    exact eq_comm
  simp only [List.mem_cons, List.not_mem_nil, or_false, exists_eq_or_imp, hkey]
  rw [or_assoc, or_assoc, or_left_comm]
  rfl

theorem Valid.retry (V : w.Valid) (hk : key ∈ w.retries) :
    Valid { w with router := w.router.trigger w.kind key, retries := w.retries.erase key } := by
  refine V.handOn (V.serves.trigger key) V.news ?_
  intro k
  rw [looks_iff, looks_iff]
  show _ ∨ (w.router.trigger w.kind key).waits w.kind k = true ∨ k ∈ w.retries.erase key ∨ _ ↔ _
  rw [V.serves.waits_trigger]
  by_cases h : k = key
  · subst h
    simp [hk]
  · rw [List.mem_erase_of_ne h]
    simp only [h, false_or]
    rfl

/-- After a restart somebody is going to look at all that is listed or cached. What is neither may
be about to be cached. -/
theorem Valid.relist (V : w.Valid) {router : Router} (hserves : router.Serves w.kind)
    (hwaits : ∀ k, w.api.get? k ≠ none ∨ w.cached k ≠ none → router.waits w.kind k = true) :
    Valid { w with router, feed := [], missed := overlooked { w with router, feed := [] } } where
  sound := V.sound.withRouter router
  serves := hserves
  enabled := V.enabled
  named := V.named
  news := by simp
  needed := V.needed
  fair := by
    intro k
    by_cases hl : looks { w with router, feed := [] } k = true
    · refine .of_looks hl fun hm => ?_
      rw [(mem_overlooked.1 hm).2.2] at hl
      contradiction
    · -- Such a key is neither listed nor cached.
      have hno : ¬(w.api.get? k ≠ none ∨ w.cached k ≠ none) := fun h =>
        hl (looks_iff.2 (Or.inr (Or.inl (hwaits k h))))
      simp only [ne_eq, not_or, Decidable.not_not] at hno
      obtain ⟨hapi, hcached⟩ := hno
      have hwanted : w.wanted k = none := by rw [wanted, hapi]; rfl
      rw [Bool.not_eq_true] at hl
      refine ⟨Or.inr ?_, ?_⟩
      · by_cases hsome : ∃ e, w.Brings k (some e)
        · exact Or.inl (mem_overlooked.2 ⟨hsome, hapi, hl⟩)
        · by_cases hnone : w.Brings k none
          · refine Or.inr (Or.inl ?_)
            show w.Brings k (w.wanted k)
            rwa [hwanted]
          · refine Or.inr (Or.inr ⟨?_, hcached.trans hwanted.symm⟩)
            rintro (_ | e) hb
            · exact hnone hb
            · exact hsome ⟨e, hb⟩
      · intro hm
        obtain ⟨hb, -, -⟩ := mem_overlooked.1 hm
        exact ⟨hapi, hl, Or.inl hb⟩

theorem Valid.restart (V : w.Valid) :
    let w1 := { w.react (.restarted w.api.values) with feed := [] }
    Valid { w1 with missed := w1.overlooked } := by
  rw [react_eq]
  refine V.relist (V.serves.triggerAll _) ?_
  intro k hk
  rw [V.serves.waits_triggerAll, Notice.triggered, List.mem_append]
  refine Or.inl (hk.imp ?_ ?_)
  · intro hne
    obtain ⟨o, ho⟩ := Option.ne_none_iff_exists'.1 hne
    exact List.mem_filterMap.2 ⟨o, Table.mem_values_iff.2 ⟨k, ho⟩, V.named ho⟩
  · intro hne
    obtain ⟨e, he⟩ := Option.ne_none_iff_exists'.1 hne
    obtain ⟨c, hc, he⟩ := Option.bind_eq_some_iff.1 he
    rw [Daemon.cachedKeys, hc]
    exact (Table.mem_keys_iff _ _).2 ⟨e, he⟩

/-! ## Steps of tasks -/

section Turns

variable {t : Task} {c c' : Collector} {hub : Hub Event} {made : List Commit}
  {sent : Option (Nat × Event)} {spent : Option Hub.PacedRef}

/-- A task has taken a turn, and then something was done with the queue. -/
def after (w : Watched) (i : Nat) (t : Task) (c : Collector) (hub : Hub Event) (made : List Commit)
    (router : Router) (retries : List Key) : Watched :=
  { w with toWorld := { w.toWorld.advance i t c hub made with router }, retries }

theorem cycle?_after (router : Router) (retries : List Key) (j : Nat) :
    (w.after i t c hub made router retries).cycle? j =
      if j = i then t.cycle? w.kind else w.cycle? j := by
  show ((w.toWorld.advance i t c hub made).tasks.get? j).bind _ = _
  rw [World.get?_tasks_advance]
  split <;> rfl

theorem cached_after (router : Router) (retries : List Key) (hk : t.kind = w.kind) :
    (w.after i t c hub made router retries).cached key = c.cache.get? key := by
  show ((w.toWorld.advance i t c hub made).collectors.get? w.kind).bind _ = _
  rw [World.get?_collectors_advance, if_pos hk.symm]
  rfl

theorem Valid.after (V : w.Valid) (T : World.Turn w.toWorld i t c c' hub made sent spent)
    {router : Router} {retries : List Key} (hserves : router.Serves w.kind)
    (hfair : ∀ key, (w.after i t c' hub made router retries).Fair key) :
    (w.after i t c' hub made router retries).Valid where
  sound := (V.sound.advance T).withRouter router
  serves := hserves
  enabled := by
    obtain ⟨d, hd⟩ := V.enabled
    show ∃ c0, (w.toWorld.advance i t c' hub made).collectors.get? w.kind = some c0
    rw [World.get?_collectors_advance]
    split
    · exact ⟨c', rfl⟩
    · exact ⟨d, hd⟩
  named := V.named
  news := V.news
  needed := V.needed
  fair := hfair

theorem cached_after_of_nil (T : World.Turn w.toWorld i t c c' hub [] sent spent) (router : Router)
    (retries : List Key) (key : Key) :
    (w.after i t c' hub [] router retries).cached key = w.cached key := by
  by_cases hk : t.kind = w.kind
  · have hc := T.collector
    rw [hk] at hc
    rw [cached_after _ _ hk, cached, hc]
    obtain ⟨-, hcache⟩ | ⟨hmade, -⟩ := T.committed key
    · exact hcache
    · contradiction
  · show ((w.toWorld.advance i t c' hub []).collectors.get? w.kind).bind _ = _
    rw [World.get?_collectors_advance, if_neg (Ne.symm hk)]
    rfl

theorem Valid.aside (V : w.Valid) (T : World.Turn w.toWorld i t c c' hub [] sent spent)
    (hi : w.cycle? i = none) (ht : t.cycle? w.kind = none) :
    (w.after i t c' hub [] w.router w.retries).Valid := by
  have hcycle : ∀ j, (w.after i t c' hub [] w.router w.retries).cycle? j = w.cycle? j := by
    intro j
    rw [cycle?_after]
    split
    · next e => rw [e, hi, ht]
    · rfl
  have hruns : ∀ key P, (w.after i t c' hub [] w.router w.retries).Runs key P ↔ w.Runs key P := by
    intro key P
    simp only [Runs, hcycle]
  refine V.after T V.serves fun key => (V.fair key).same
    ⟨rfl, rfl, rfl, cached_after_of_nil T _ _ key, Iff.rfl, ?_, fun v => hruns key _⟩
  rw [looks_iff, looks_iff, hruns]
  rfl

/-! ## Steps of cycles -/

theorem runs_iff {P : Cycle → Prop} (i : Nat) : w.Runs key P ↔
    (∃ y, w.cycle? i = some y ∧ y.key = key ∧ P y) ∨
      ∃ j y, j ≠ i ∧ w.cycle? j = some y ∧ y.key = key ∧ P y := by
  constructor
  · rintro ⟨j, y, hj, hy⟩
    by_cases e : j = i
    · exact Or.inl ⟨y, e ▸ hj, hy⟩
    · exact Or.inr ⟨j, y, e, hj, hy⟩
  · rintro (⟨y, hy⟩ | ⟨j, y, -, hy⟩)
    · exact ⟨i, y, hy⟩
    · exact ⟨j, y, hy⟩

theorem runs_after {P : Cycle → Prop} (ht : t.cycle? w.kind = some y) (router : Router)
    (retries : List Key) : (w.after i t c hub made router retries).Runs key P ↔
      (y.key = key ∧ P y) ∨ ∃ j y, j ≠ i ∧ w.cycle? j = some y ∧ y.key = key ∧ P y := by
  rw [runs_iff i]
  refine or_congr ?_ (exists_congr fun j => exists_congr fun y' => and_congr_right fun hj => ?_)
  · rw [cycle?_after, if_pos rfl, ht]
    simp
  · rw [cycle?_after, if_neg hj]

theorem Valid.take (V : w.Valid) (T : World.Turn w.toWorld i t c c' hub [] sent spent)
    (hi : w.cycle? i = none) (ht : t.cycle? w.kind = some y) (hy : y.stage = .locking)
    {q q' : WorkQueue} (hq : w.router.queues.get? w.kind = some q)
    (hp : q.pick = some (y.key, q')) :
    (w.after i t c' hub [] (w.withQueue q').router w.retries).Valid := by
  obtain ⟨q0, hq0, v⟩ := V.serves
  rw [hq, Option.some.injEq] at hq0
  subst hq0
  obtain ⟨v', hkey, hmarked⟩ := v.pick hp
  have hq' : (w.withQueue q').router.queues.get? w.kind = some q' := Table.get?_insert_self _ _ _
  refine V.after T ⟨q', hq', v'⟩ fun k => (V.fair k).same
    ⟨rfl, rfl, rfl, cached_after_of_nil T _ _ k, Iff.rfl, ?_, fun v => ?_⟩
  · rw [looks_iff, looks_iff, runs_after ht, runs_iff i, hi]
    show _ ∨ (w.withQueue q').router.waits w.kind k = true ∨ k ∈ w.retries ∨ _ ↔ _
    rw [Router.waits_iff hq', Router.waits_iff hq, hmarked]
    have hahead : y.isAhead = true := by rw [Cycle.isAhead, hy]
    by_cases hk : k = y.key
    · subst hk
      simp [hkey, hahead]
    · simp only [ne_eq, hk, not_false_eq_true, true_and, Ne.symm hk, false_and, false_or,
        reduceCtorEq, exists_false]
      rfl
  · have hnone : y.brings? w.kind w.nodes = none := by rw [Cycle.brings?, hy]
    rw [Brings, Brings, runs_after ht, runs_iff (w := w) i, hi]
    show _ ∧ y.brings? w.kind w.nodes = some v ∨ _ ↔ _
    simp only [hnone, reduceCtorEq, and_false, false_or, false_and, exists_false]
    rfl

end Turns

end Watched

end Nodecast
