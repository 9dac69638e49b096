import Nodecast.Proofs.Transitions

/-!
# What a node is told over time

A node hears of an object in rounds: the object is added, modified any number of times, and deleted.
Every event is news to the node.
-/

namespace Nodecast

variable {kind : Kind} {key : Key} {node : String} {prior : Option Entry} {t : Transition}
  {ts : List Transition} {e : Event} {es : List Event} {known : Option (String × Option String)}

theorem concat_eq_append_cons {α : Type} {l pre post : List α} {a b : α}
    (h : l ++ [b] = pre ++ a :: post) : (pre = l ∧ a = b) ∨ ∃ post', l = pre ++ a :: post' := by
  rcases List.eq_nil_or_concat post with rfl | ⟨post', z, rfl⟩
  · obtain ⟨hl, hb⟩ := List.append_inj' h rfl
    exact Or.inl ⟨hl.symm, (List.singleton_inj.1 hb).symm⟩
  · rw [List.concat_eq_append, ← List.cons_append, ← List.append_assoc] at h
    exact Or.inr ⟨post', (List.append_inj' h rfl).1⟩

/-! ## Events that are news -/

def Event.IsNews (e : Event) (known : Option (String × Option String)) : Prop :=
  match e.change with
  | .added => known = none
  | .modified => known ≠ none ∧ e.taught ≠ known
  | .deleted => known ≠ none

theorem Event.taught_of_ne (h : e.change ≠ .deleted) : e.taught = some (e.uid, e.payload) := by
  unfold Event.taught
  cases hc : e.change with
  | added | modified => rfl
  | deleted => exact absurd hc h

theorem Event.taught_of_deleted (h : e.change = .deleted) : e.taught = none := by
  unfold Event.taught
  rw [h]

theorem Event.taught_ne_none : e.taught ≠ none ↔ e.change ≠ .deleted := by
  by_cases h : e.change = .deleted
  · simp [taught_of_deleted h, h]
  · simp [taught_of_ne h, h]

theorem Event.IsNews.taught_ne (h : e.IsNews known) : e.taught ≠ known := by
  unfold Event.IsNews at h
  cases hc : e.change with
  | added =>
    rw [hc] at h
    rw [show known = none from h]
    exact taught_ne_none.2 (by simp [hc])
  | modified =>
    rw [hc] at h
    exact h.2
  | deleted =>
    rw [hc] at h
    rw [taught_of_deleted hc]
    exact Ne.symm h

/-- A node that was told the events, the oldest first, knows `known` now. -/
inductive History : Option (String × Option String) → List Event → Prop where
  | nil : History none []
  | snoc {known : Option (String × Option String)} {es : List Event} {e : Event} :
      History known es → e.IsNews known → History e.taught (es ++ [e])

/-- The changes of one round, `n` of them modifications. -/
def round (n : Nat) : List Change := .added :: (List.replicate n .modified ++ [.deleted])

namespace History

theorem known_eq (h : History known es) : known = es.getLast?.bind Event.taught := by
  cases h with
  | nil => rfl
  | snoc => simp

theorem exists_last (h : History known es) (hk : known ≠ none) :
    ∃ e, es.getLast? = some e ∧ e.change ≠ .deleted ∧ known = some (e.uid, e.payload) := by
  cases h with
  | nil => contradiction
  | @snoc _ es e _ _ =>
    have hc := Event.taught_ne_none.1 hk
    exact ⟨e, List.getLast?_concat, hc, Event.taught_of_ne hc⟩

theorem isNews (h : History known es) {pre post : List Event} (he : es = pre ++ e :: post) :
    ∃ before, History before pre ∧ e.IsNews before := by
  -- The history ends with `e`, or `e` lies in the part told before.
  induction h generalizing post with
  | nil => simp at he
  | @snoc known es last hes hlast ih =>
    rcases concat_eq_append_cons he with ⟨rfl, rfl⟩ | ⟨post', he⟩
    · exact ⟨known, hes, hlast⟩
    · exact ih he

/-- A node that knows nothing has been through whole rounds. One that knows the object is in the
middle of a round. -/
theorem rounds (h : History known es) :
    (known = none → ∃ rounds : List Nat, es.map Event.change = rounds.flatMap round) ∧
    (known ≠ none → ∃ (rounds : List Nat) (n : Nat), es.map Event.change =
      rounds.flatMap round ++ .added :: List.replicate n .modified) := by
  induction h with
  | nil => exact ⟨fun _ => ⟨[], rfl⟩, fun hk => absurd rfl hk⟩
  | @snoc known es e _ hnews ih =>
    unfold Event.IsNews at hnews
    cases hc : e.change with
    | added =>
      rw [hc] at hnews
      obtain ⟨rounds, hr⟩ := ih.1 hnews
      refine ⟨fun hn => absurd hn (Event.taught_ne_none.2 (by simp [hc])), fun _ => ⟨rounds, 0, ?_⟩⟩
      simp [hr, hc]
    | modified =>
      rw [hc] at hnews
      obtain ⟨rounds, n, hr⟩ := ih.2 hnews.1
      refine ⟨fun hn => absurd hn (Event.taught_ne_none.2 (by simp [hc])),
        fun _ => ⟨rounds, n + 1, ?_⟩⟩
      simp [hr, hc, List.replicate_succ']
    | deleted =>
      rw [hc] at hnews
      obtain ⟨rounds, n, hr⟩ := ih.2 hnews
      refine ⟨fun _ => ⟨rounds ++ [n], ?_⟩, fun hn => absurd hc (Event.taught_ne_none.1 hn)⟩
      simp [hr, hc, round]

theorem isPrefix (h : History known es) :
    ∃ rounds : List Nat, es.map Event.change <+: rounds.flatMap round := by
  by_cases hk : known = none
  · obtain ⟨rounds, hr⟩ := h.rounds.1 hk
    exact ⟨rounds, [], by rw [hr, List.append_nil]⟩
  · obtain ⟨rounds, n, hr⟩ := h.rounds.2 hk
    refine ⟨rounds ++ [n], [.deleted], ?_⟩
    simp [hr, round]

theorem modified_ne (h : History known es) {a b : Event} (hab : [a, b] <:+: es)
    (hb : b.change = .modified) : (a.uid, a.payload) ≠ (b.uid, b.payload) := by
  obtain ⟨pre, post, he⟩ := hab
  have he' : es = (pre ++ [a]) ++ b :: post := by simp [← he]
  obtain ⟨before, hbefore, hnews⟩ := h.isNews he'
  have hknown : before = a.taught := by simpa using hbefore.known_eq
  unfold Event.IsNews at hnews
  rw [hb, hknown] at hnews
  obtain ⟨ha, hne⟩ := hnews
  rw [Event.taught_of_ne (by simp [hb]), Event.taught_of_ne (Event.taught_ne_none.1 ha)] at hne
  exact fun heq => hne (congrArg some heq.symm)

end History

/-! ## The events of one step -/

theorem changeFor_known {previous current : NodeSet} {changed : Bool} {change : Change}
    (h : changeFor previous current changed node = some change) :
    (change = .added ∧ node ∉ previous) ∨
      (change = .modified ∧ node ∈ previous ∧ changed = true) ∨
      (change = .deleted ∧ node ∈ previous) := by
  unfold changeFor at h
  grind

theorem nodup_pending (previous current : NodeSet) (changed : Bool) :
    ((pending previous current changed).map Prod.fst).Nodup := by
  have hsub : ((pending previous current changed).map Prod.fst).Sublist
      (previous.union current).names := by
    unfold pending
    induction (previous.union current).names with
    | nil => exact .slnil
    | cons n rest ih =>
      rw [List.filterMap_cons]
      cases changeFor previous current changed n with
      | none => exact ih.cons n
      | some change => exact ih.cons_cons n
  refine hsub.nodup ((previous.union current).sorted.imp ?_)
  intro a b hlt heq
  exact String.lt_irrefl a (heq ▸ hlt)

theorem filter_eq_singleton {α β : Type} [DecidableEq β] {f : α → β} {l : List α}
    (hn : (l.map f).Nodup) {a : α} (ha : a ∈ l) : l.filter (fun x => f x = f a) = [a] := by
  induction l with
  | nil => contradiction
  | cons x rest ih =>
    obtain ⟨hx, hrest⟩ := List.nodup_cons.1 hn
    rcases List.mem_cons.1 ha with rfl | ha
    · rw [List.filter_cons_of_pos (by simp), List.filter_eq_nil_iff.2]
      intro y hy
      simp only [decide_eq_true_eq]
      exact fun he => hx (he ▸ List.mem_map_of_mem hy)
    · have hne : f x ≠ f a := fun he => hx (he ▸ List.mem_map_of_mem ha)
      rw [List.filter_cons_of_neg (by simp [hne]), ih hrest ha]

namespace Transition.LeadsFrom

theorem nodup_nodes (h : t.LeadsFrom kind prior) (key : Key) :
    ((t.events key).map Event.node).Nodup := by
  have hmap : (t.events key).map Event.node = t.pending.map Prod.fst := by
    simp only [Transition.events, List.map_map]
    rfl
  rw [hmap, h.pending]
  exact nodup_pending _ _ _

theorem isNews (h : t.LeadsFrom kind prior) (he : e ∈ t.events key) :
    e.IsNews (shown prior e.node) := by
  obtain ⟨node, change, hp, rfl⟩ := mem_events.1 he
  show Event.IsNews _ (shown prior node)
  rcases changeFor_known (h.mem_pending.1 hp) with ⟨rfl, hno⟩ | ⟨rfl, hyes, hc⟩ | ⟨rfl, hyes⟩
  · show shown prior node = none
    cases prior with
    | none => rfl
    | some p => exact shown_of_not_mem hno
  · obtain ⟨p, rfl, hn⟩ := mem_needed.1 hyes
    rw [shown_of_mem hn]
    refine ⟨nofun, ?_⟩
    intro heq
    have hpair : (t.entry.uid, some t.entry.fields) = (p.uid, some p.fields) := Option.some.inj heq
    simp only [Prod.mk.injEq, Option.some.injEq] at hpair
    simp [hpair.1, hpair.2] at hc
  · obtain ⟨p, rfl, hn⟩ := mem_needed.1 hyes
    show shown (some p) node ≠ none
    rw [shown_of_mem hn]
    exact nofun

theorem events_to (h : t.LeadsFrom kind prior) (key : Key) (node : String) :
    ((t.events key).filter (fun e => e.node = node) = [] ∧
      shown t.left node = shown prior node) ∨
    ∃ e, (t.events key).filter (fun e => e.node = node) = [e] ∧
      e.IsNews (shown prior node) ∧ e.taught = shown t.left node := by
  by_cases hev : ∃ e ∈ t.events key, e.node = node
  · obtain ⟨e, he, rfl⟩ := hev
    exact Or.inr ⟨e, filter_eq_singleton (h.nodup_nodes key) he, h.isNews he,
      (h.event he).2.2.taught⟩
  · refine Or.inl ⟨?_, (h.event_or_same key node).resolve_left hev⟩
    rw [List.filter_eq_nil_iff]
    intro e he hn
    exact hev ⟨e, he, by simpa using hn⟩

theorem events_eq_nil (h : t.LeadsFrom kind prior) (hsame : t.left = prior) (key : Key) :
    t.events key = [] := by
  rw [List.eq_nil_iff_forall_not_mem]
  intro e he
  have htaught := (h.event he).2.2.taught
  rw [hsame] at htaught
  exact (h.isNews he).taught_ne htaught

end Transition.LeadsFrom

/-! ## The events of many steps -/

/-- What the last of the steps left in the cache. -/
def leftBy (ts : List Transition) : Option Entry := ts.getLast?.bind Transition.left

/-- Each step leads on from what the step before it left. -/
inductive Succession (kind : Kind) : List Transition → Prop where
  | nil : Succession kind []
  | snoc {ts : List Transition} {t : Transition} :
      Succession kind ts → t.LeadsFrom kind (leftBy ts) → Succession kind (ts ++ [t])

def eventsTo (ts : List Transition) (key : Key) (node : String) : List Event :=
  (ts.flatMap fun t => t.events key).filter fun e => e.node = node

theorem eventsTo_append (ts ts' : List Transition) (key : Key) (node : String) :
    eventsTo (ts ++ ts') key node = eventsTo ts key node ++ eventsTo ts' key node := by
  simp [eventsTo]

namespace Succession

theorem leadsFrom (h : Succession kind ts) {pre post : List Transition}
    (ht : ts = pre ++ t :: post) : Succession kind pre ∧ t.LeadsFrom kind (leftBy pre) := by
  induction h generalizing post with
  | nil => simp at ht
  | @snoc ts last hts hlast ih =>
    rcases concat_eq_append_cons ht with ⟨rfl, rfl⟩ | ⟨post', ht⟩
    · exact ⟨hts, hlast⟩
    · exact ih ht

theorem history (h : Succession kind ts) (key : Key) (node : String) :
    History (shown (leftBy ts) node) (eventsTo ts key node) := by
  induction h with
  | nil => exact .nil
  | @snoc ts t _ ht ih =>
    have hleft : leftBy (ts ++ [t]) = t.left := by simp [leftBy]
    have hone : eventsTo [t] key node = (t.events key).filter fun e => e.node = node := by
      simp [eventsTo]
    rw [hleft, eventsTo_append, hone]
    rcases ht.events_to key node with ⟨hnil, hsame⟩ | ⟨e, hsingle, hnews, htaught⟩
    · rw [hnil, List.append_nil, hsame]
      exact ih
    · rw [hsingle, ← htaught]
      exact .snoc ih hnews

end Succession

end Nodecast
