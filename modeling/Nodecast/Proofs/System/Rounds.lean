import Nodecast.Proofs.System.Generated

/-!
# Rounds

What the cycles generate for a node and an object agrees with the cache after every step, and says
nothing twice. A deletion is made from the object as it was seen last, so it can name another uid
than the one that the node knows.
-/

namespace Nodecast

variable {kind : Kind} {key : Key} {node : String} {prior : Option Entry} {ts : List Transition}
  {told : List Event} {known : Option (String × Option String)}

/-- What a node was told about an object agrees with what is cached. -/
structure WellTold (told : List Event) (cached : Option Entry) (node : String) : Prop where
  rounds : ∃ rounds : List Nat, told.map Event.change <+: rounds.flatMap round
  /-- The node was told last that it needs the object exactly if the cache says so. -/
  needed : (∃ e, told.getLast? = some e ∧ e.change ≠ .deleted) ↔
    ∃ entry, cached = some entry ∧ node ∈ entry.nodes
  /-- It was told of the object as it is cached. -/
  current : ∀ {e entry}, told.getLast? = some e → e.change ≠ .deleted → cached = some entry →
    e.uid = entry.uid ∧ e.payload = some entry.fields
  /-- No modification repeats the event before it. -/
  minimal : ∀ {a b}, [a, b] <:+: told → b.change = .modified →
    (a.uid, a.payload) ≠ (b.uid, b.payload)

theorem shown_eq_some {cached : Option Entry} {x : String × Option String}
    (h : shown cached node = some x) :
    ∃ entry, cached = some entry ∧ node ∈ entry.nodes ∧ x = (entry.uid, some entry.fields) := by
  obtain ⟨entry, he, rfl⟩ := Option.map_eq_some_iff.1 h
  obtain ⟨hc, hn⟩ := Option.filter_eq_some_iff.1 he
  exact ⟨entry, hc, by simpa [Entry.isAssociatedWith] using hn, rfl⟩

theorem History.wellTold {cached : Option Entry} (h : History (shown cached node) told) :
    WellTold told cached node where
  rounds := h.isPrefix
  needed := by
    constructor
    · rintro ⟨e, he, hc⟩
      have hknown := h.known_eq
      rw [he, Option.bind_some, Event.taught_of_ne hc] at hknown
      obtain ⟨entry, hentry, hn, -⟩ := shown_eq_some hknown
      exact ⟨entry, hentry, hn⟩
    · rintro ⟨entry, rfl, hn⟩
      obtain ⟨e, he, hc, -⟩ := h.exists_last (by simp [shown_of_mem hn])
      exact ⟨e, he, hc⟩
  current := by
    rintro e entry he hc rfl
    have hknown := h.known_eq
    rw [he, Option.bind_some, Event.taught_of_ne hc] at hknown
    obtain ⟨entry', hentry, -, heq⟩ := shown_eq_some hknown
    obtain rfl := Option.some.inj hentry
    exact ⟨congrArg Prod.fst heq, congrArg Prod.snd heq⟩
  minimal := h.modified_ne

namespace World

variable {w : World} {rs : List Report} {c : Collector} {pre post : List Transition}
  {b : Transition} {d : Event}

theorem Recorded.history (h : Recorded w rs) (hc : w.collectors.get? kind = some c) (key : Key)
    (node : String) :
    History (shown (c.cache.get? key) node) (eventsTo (stepsOf rs kind key) key node) := by
  rw [h.reachable.sound.cached hc key, ← leftBy_eq h.agrees]
  exact (h.agrees.steps kind key).history key node

def webKey : Key := ⟨"default", "web"⟩

/-- A Deployment of two nodes is deleted and made again with another uid for one of them. -/
def recreation : List Action :=
  let object (uid : String) : Tracked := { metadata := { uid := some uid } }
  [.reconcile .deployment webKey, .cycle 0 (.lock false),
    .cycle 0 (.fetch (.ok (some (object "u1")))), .cycle 0 (.resolve (.ok (.ofList ["a", "b"]))),
    .cycle 0 (.commit false), .cycle 0 .push, .cycle 0 .push, .cycle 0 .finish,
    .reconcile .deployment webKey, .cycle 1 (.lock false),
    .cycle 1 (.fetch (.ok (some (object "u2")))), .cycle 1 (.resolve (.ok (.ofList ["b"]))),
    .cycle 1 (.commit false)]

/-- Beside what each node was told: a cycle tells a node one thing at most, and a step that leaves
the object as it was tells nobody anything. -/
theorem Recorded.hears_in_rounds (h : Recorded w rs) (hc : w.collectors.get? kind = some c)
    (key : Key) (node : String) :
    WellTold (eventsTo (stepsOf rs kind key) key node) (c.cache.get? key) node ∧
    (∀ {i t y}, w.tasks.get? i = some t → t.activity = .cycle y →
      y.generated = generatedBy rs i ∧ (y.generated.map Event.node).Nodup) ∧
    ∀ {pre b post}, stepsOf rs kind key = pre ++ b :: post → b.left = leftBy pre →
      b.events key = [] := by
  refine ⟨(h.history hc key node).wellTold, h.agrees.generated, ?_⟩
  intro pre b post hsteps hsame
  exact ((h.agrees.steps kind key).leadsFrom hsteps).2.events_eq_nil hsame key

theorem hears_in_rounds_recreation :
    ∃ w rs c, Recorded w rs ∧ w.collectors.get? .deployment = some c ∧
      (eventsTo (stepsOf rs .deployment webKey) webKey "b").map
        Event.change = [.added, .modified] ∧
      WellTold (eventsTo (stepsOf rs .deployment webKey) webKey "b")
        (c.cache.get? webKey) "b" := by
  have hrun : ∃ w c, (start {}).run recreation = some w ∧
      w.collectors.get? .deployment = some c := ⟨_, _, rfl, rfl⟩
  obtain ⟨w, c, hw, hc⟩ := hrun
  have hr := (Recorded.start {}).run hw
  exact ⟨w, _, c, hr, hc, rfl, (hr.hears_in_rounds hc webKey "b").1⟩

/-- The last that a node heard before a deletion names the uid that was cached. The deletion names
the same uid exactly if the step does not lead to an object made anew. -/
theorem Recorded.deleted_uid (h : Recorded w rs) (hsteps : stepsOf rs kind key = pre ++ b :: post)
    (hd : d ∈ b.events key) (hdeleted : d.change = .deleted) :
    ∃ entry last, leftBy pre = some entry ∧
      (eventsTo pre key d.node).getLast? = some last ∧ last.change ≠ .deleted ∧
      last.uid = entry.uid ∧ (d.uid = last.uid ↔ b.entry.uid = entry.uid) := by
  obtain ⟨hpre, hb⟩ := (h.agrees.steps kind key).leadsFrom hsteps
  have hnews := hb.isNews hd
  unfold Event.IsNews at hnews
  rw [hdeleted] at hnews
  obtain ⟨last, hlast, hc, hshown⟩ := (hpre.history key d.node).exists_last hnews
  obtain ⟨entry, hentry, -, heq⟩ := shown_eq_some hshown
  have huid : last.uid = entry.uid := congrArg Prod.fst heq
  have hduid : d.uid = b.entry.uid := by
    obtain ⟨node, change, -, rfl⟩ := mem_events.1 hd
    rfl
  refine ⟨entry, last, hentry, hlast, hc, huid, ?_⟩
  rw [hduid, huid]

theorem recreation_steps : ∃ w rs pre b d last, Recorded w rs ∧
    stepsOf rs .deployment webKey = pre ++ [b] ∧ d ∈ b.events webKey ∧ d.change = .deleted ∧
    (eventsTo pre webKey d.node).getLast? = some last ∧ last.change = .added ∧
    last.uid = "u1" ∧ d.uid = "u2" := by
  have hrun : ∃ w, (start {}).run recreation = some w := ⟨_, rfl⟩
  obtain ⟨w, hw⟩ := hrun
  have hsteps : ∃ a b d last,
      stepsOf ((start {}).record recreation) .deployment webKey = [a] ++ [b] ∧
      d ∈ b.events webKey ∧ d.change = .deleted ∧
      (eventsTo [a] webKey d.node).getLast? = some last ∧ last.change = .added ∧
      last.uid = "u1" ∧ d.uid = "u2" :=
    ⟨_, _, _, _, rfl, List.mem_cons_self, rfl, rfl, rfl, rfl, rfl⟩
  obtain ⟨a, b, d, last, hsteps⟩ := hsteps
  exact ⟨w, _, [a], b, d, last, (Recorded.start {}).run hw, hsteps⟩

theorem deleted_uid_recreation : ∃ w rs pre b d entry last, Recorded w rs ∧
    stepsOf rs .deployment webKey = pre ++ [b] ∧ d ∈ b.events webKey ∧ d.change = .deleted ∧
    leftBy pre = some entry ∧ (eventsTo pre webKey d.node).getLast? = some last ∧
    last.change ≠ .deleted ∧ last.uid = entry.uid ∧
    (d.uid = last.uid ↔ b.entry.uid = entry.uid) := by
  obtain ⟨w, rs, pre, b, d, -, hr, hsteps, hd, hdeleted, -⟩ := recreation_steps
  obtain ⟨entry, last, hlast⟩ := hr.deleted_uid hsteps hd hdeleted
  exact ⟨w, rs, pre, b, d, entry, last, hr, hsteps, hd, hdeleted, hlast⟩

/-- A node is told that `u2` was deleted, of which it never heard. -/
theorem not_deleted_uid_recreation : ∃ w rs pre b d last, Recorded w rs ∧
    stepsOf rs .deployment webKey = pre ++ [b] ∧ d ∈ b.events webKey ∧ d.change = .deleted ∧
    (eventsTo pre webKey d.node).getLast? = some last ∧ last.change = .added ∧
    d.uid ≠ last.uid := by
  obtain ⟨w, rs, pre, b, d, last, hr, hsteps, hd, hdeleted, hlast, hadded, hu1, hu2⟩ :=
    recreation_steps
  refine ⟨w, rs, pre, b, d, last, hr, hsteps, hd, hdeleted, hlast, hadded, ?_⟩
  rw [hu1, hu2]
  decide

end World

end Nodecast
