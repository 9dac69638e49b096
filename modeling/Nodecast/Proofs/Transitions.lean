import Nodecast.Collector.Cycle

/-!
# What a step tells the nodes

A node is told something exactly when the object looks different to it afterwards, and what it is
told is how the object looks to it then.
-/

namespace Nodecast

variable {kind : Kind} {key : Key} {node : String} {entry : Entry} {last prior : Option Entry}
  {t : Transition}

/-- What a node is to know of an object: its uid and its fields, if the node needs it at all. -/
def shown (last : Option Entry) (node : String) : Option (String × Option String) :=
  (last.filter fun e => e.isAssociatedWith node).map fun e => (e.uid, some e.fields)

theorem shown_of_mem (h : node ∈ entry.nodes) :
    shown (some entry) node = some (entry.uid, some entry.fields) := by
  rw [shown, Option.filter_some, if_pos (by simpa [Entry.isAssociatedWith] using h)]
  rfl

theorem shown_of_not_mem (h : node ∉ entry.nodes) : shown (some entry) node = none := by
  rw [shown, Option.filter_some, if_neg (by simpa [Entry.isAssociatedWith] using h)]
  rfl

namespace Event

/-- The event tells its node how a commit left the object. -/
def Tells (e : Event) (last : Option Entry) : Prop :=
  match e.change with
  | .added | .modified => ∃ entry, last = some entry ∧ e.node ∈ entry.nodes ∧ e.uid = entry.uid ∧
      e.payload = some entry.fields
  | .deleted => ∀ entry, last = some entry → e.node ∉ entry.nodes

/-- What a node knows of an object after the event. -/
def taught (e : Event) : Option (String × Option String) :=
  match e.change with
  | .added | .modified => some (e.uid, e.payload)
  | .deleted => none

theorem Tells.taught {e : Event} (h : e.Tells last) : e.taught = shown last e.node := by
  obtain ⟨change, kind, uid, space, name, node, payload⟩ := e
  cases change with
  | added | modified =>
    obtain ⟨entry, rfl, hn, hu, hp⟩ := h
    simp only at hu hp
    rw [shown_of_mem hn, hu, hp]
    rfl
  | deleted =>
    have hno : ∀ entry, last = some entry → node ∉ entry.nodes := h
    cases last with
    | none => rfl
    | some entry => exact (shown_of_not_mem (hno entry rfl)).symm

end Event

theorem eventFor_key (e : Entry) (key : Key) (node : String) (change : Change) :
    (e.eventFor key node change).key = key := rfl

theorem tells_added (hn : node ∈ entry.nodes) :
    (entry.eventFor key node .added).Tells (some entry) :=
  ⟨entry, rfl, hn, rfl, rfl⟩

/-! ## Steps -/

namespace Transition

/-- The nodes that need an object, if it is cached at all. -/
def needed (last : Option Entry) : NodeSet := (last.map Entry.nodes).getD ∅

/-- The step leads from what was cached before, and tells every node that sees a difference. -/
structure LeadsFrom (t : Transition) (kind : Kind) (prior : Option Entry) : Prop where
  kind : t.entry.kind = kind
  pending : t.pending = Nodecast.pending (needed prior) t.entry.nodes
    (prior.all fun e => e.fields ≠ t.entry.fields || e.uid ≠ t.entry.uid)

/-- What the step leaves in the cache. -/
def left (t : Transition) : Option Entry := if t.isEmpty then none else some t.entry

theorem left_eq_some (h : t.left = some e) : e = t.entry := by
  unfold left at h
  split at h
  · contradiction
  · exact (Option.some.inj h).symm

theorem not_mem_of_isEmpty (h : t.isEmpty = true) (node : String) : node ∉ t.entry.nodes := by
  intro hn
  rw [NodeSet.mem_def, List.isEmpty_iff.1 h] at hn
  contradiction

theorem shown_left (t : Transition) (node : String) :
    shown t.left node = shown (some t.entry) node := by
  unfold left
  split
  · next h => exact (shown_of_not_mem (not_mem_of_isEmpty h node)).symm
  · rfl

end Transition

theorem changeFor_eq_some {previous current : NodeSet} {changed : Bool} {change : Change}
    (h : changeFor previous current changed node = some change) :
    (node ∈ current ∧ change ≠ .deleted) ∨ (node ∉ current ∧ change = .deleted) := by
  unfold changeFor at h
  split at h
  · next hc =>
    refine Or.inl ⟨hc, ?_⟩
    split at h
    · split at h
      · cases h
        decide
      · contradiction
    · cases h
      decide
  · next hc =>
    split at h
    · cases h
      exact Or.inr ⟨hc, rfl⟩
    · contradiction

theorem changeFor_eq_none {previous current : NodeSet} {changed : Bool}
    (h : changeFor previous current changed node = none) :
    (node ∈ previous ↔ node ∈ current) ∧ (node ∈ current → changed = false) := by
  unfold changeFor at h
  grind

theorem mem_needed : node ∈ Transition.needed last ↔ ∃ e, last = some e ∧ node ∈ e.nodes := by
  cases last with
  | none => exact ⟨fun h => absurd h List.not_mem_nil, fun ⟨_, he, _⟩ => nomatch he⟩
  | some e => simp [Transition.needed]

namespace Transition.LeadsFrom

theorem mem_pending (h : t.LeadsFrom kind prior) {change : Change} :
    (node, change) ∈ t.pending ↔ changeFor (needed prior) t.entry.nodes
      (prior.all fun e => e.fields ≠ t.entry.fields || e.uid ≠ t.entry.uid) node = some change := by
  rw [h.pending]
  exact Nodecast.mem_pending

theorem told (h : t.LeadsFrom kind prior) {change : Change} (hp : (node, change) ∈ t.pending) :
    (node ∈ t.entry.nodes ∧ change ≠ .deleted) ∨ (node ∉ t.entry.nodes ∧ change = .deleted) :=
  changeFor_eq_some (h.mem_pending.1 hp)

theorem silent (h : t.LeadsFrom kind prior) (hp : ∀ change, (node, change) ∉ t.pending) :
    shown (some t.entry) node = shown prior node := by
  have hnone := Option.eq_none_iff_forall_ne_some.2 fun change he =>
    hp change (h.mem_pending.2 he)
  obtain ⟨hsame, hchanged⟩ := changeFor_eq_none hnone
  rw [mem_needed] at hsame
  by_cases hn : node ∈ t.entry.nodes
  · have hc := hchanged hn
    obtain ⟨e, rfl, he⟩ := hsame.2 hn
    simp only [Option.all_some, Bool.or_eq_false_iff, decide_eq_false_iff_not, ne_eq,
      Decidable.not_not] at hc
    rw [shown_of_mem hn, shown_of_mem he, hc.1, hc.2]
  · rw [shown_of_not_mem hn]
    cases prior with
    | none => rfl
    | some e => exact (shown_of_not_mem fun he => hn (hsame.1 ⟨e, rfl, he⟩)).symm

end Transition.LeadsFrom

theorem leadsFrom_firstSeen (kind : Kind) (uid fields : String) (nodes : NodeSet) :
    (Entry.firstSeen kind uid fields nodes).LeadsFrom kind none := ⟨rfl, rfl⟩

theorem leadsFrom_advance (e : Entry) (uid fields : String) (nodes : NodeSet) :
    (e.advance uid fields nodes).LeadsFrom e.kind (some e) := ⟨rfl, rfl⟩

theorem leadsFrom_retire (e : Entry) : e.retire.LeadsFrom e.kind (some e) := by
  refine ⟨rfl, ?_⟩
  simp [Entry.retire, Transition.needed]

theorem leadsFrom_transition (hprior : ∀ e, prior = some e → e.kind = kind) (object : Tracked)
    (nodes : NodeSet) : (Collector.transition kind prior object nodes).LeadsFrom kind prior := by
  cases prior with
  | none => exact leadsFrom_firstSeen _ _ _ _
  | some e =>
    obtain rfl := hprior e rfl
    exact leadsFrom_advance _ _ _ _

theorem left_transition {object : Tracked} {nodes : NodeSet}
    (hprior : ∀ e, prior = some e → e.kind = kind) (hnodes : nodes.isEmpty = false) :
    (Collector.transition kind prior object nodes).left =
      some ⟨kind, object.uid, object.metadata.fields, nodes⟩ := by
  cases prior with
  | none =>
    simp [Collector.transition, Entry.firstSeen, Transition.left, Transition.isEmpty, hnodes]
  | some e =>
    obtain rfl := hprior e rfl
    simp [Collector.transition, Entry.advance, Transition.left, Transition.isEmpty, hnodes]

theorem left_retire (e : Entry) : e.retire.left = none := rfl

/-! ## Commits -/

theorem get?_commit_of_ne {cache : Cache} {k : Key} (h : k ≠ key) (hadPrior : Bool)
    (t : Transition) : (cache.commit key hadPrior t).2.get? k = cache.get? k := by
  unfold Cache.commit Cache.apply
  dsimp only
  split
  · exact Table.get?_insert_of_ne _ _ h
  · exact Table.get?_insert_of_ne _ _ h
  · exact Table.get?_erase_of_ne _ h
  · rfl

theorem get?_commit {c : Cache} {hadPrior : Bool} (hhad : hadPrior = (c.get? key).isSome)
    (t : Transition) (k : Key) :
    (c.commit key hadPrior t).2.get? k = if k = key then t.left else c.get? k := by
  unfold Cache.commit Transition.left
  cases hadPrior <;> cases he : t.isEmpty
  · simp [Cache.Action.of, Cache.apply, Table.get?_insert]
  · have hnone : c.get? key = none := by simpa using hhad.symm
    simp only [Cache.Action.of, Cache.apply, if_true]
    split
    · next e => rw [e, hnone]
    · rfl
  · simp [Cache.Action.of, Cache.apply, Table.get?_insert]
  · simp [Cache.Action.of, Cache.apply, Table.get?_erase]

theorem mem_events {e : Event} :
    e ∈ t.events key ↔ ∃ node change, (node, change) ∈ t.pending ∧
      t.entry.eventFor key node change = e := by
  simp [Transition.events]

namespace Transition.LeadsFrom

theorem event (h : t.LeadsFrom kind prior) {e : Event} (he : e ∈ t.events key) :
    e.kind = kind ∧ e.key = key ∧ e.Tells t.left := by
  obtain ⟨node, change, hp, rfl⟩ := mem_events.1 he
  refine ⟨h.kind, rfl, ?_⟩
  rcases h.told hp with ⟨hn, hc⟩ | ⟨hn, rfl⟩
  · have hleft : t.left = some t.entry := by
      unfold Transition.left
      split
      · next hempty => exact absurd hn (not_mem_of_isEmpty hempty node)
      · rfl
    rw [hleft]
    cases change with
    | added | modified => exact ⟨t.entry, rfl, hn, rfl, rfl⟩
    | deleted => contradiction
  · intro entry he
    rw [left_eq_some he]
    exact hn

theorem event_or_same (h : t.LeadsFrom kind prior) (key : Key) (node : String) :
    (∃ e ∈ t.events key, e.node = node) ∨ shown t.left node = shown prior node := by
  by_cases hp : ∃ change, (node, change) ∈ t.pending
  · obtain ⟨change, hp⟩ := hp
    exact Or.inl ⟨_, mem_events.2 ⟨node, change, hp, rfl⟩, rfl⟩
  · rw [not_exists] at hp
    exact Or.inr ((t.shown_left node).trans (h.silent hp))

end Transition.LeadsFrom

end Nodecast
