import Nodecast.Proofs.System.Runs

/-!
# What a subscriber knows

A subscriber keeps a table of what it was told. What it ought to know about an object is what the
cache holds for its node. The two differ only while an event is owed, or until a replay has come by.
-/

namespace Nodecast

variable {key : Key} {kind : Kind}

/-! ## Tables of subscribers -/

/-- A subscriber takes over what it is told, and forgets what was deleted. -/
def learn (known : Table Key (String × Option String)) (e : Event) :
    Table Key (String × Option String) :=
  match e.change with
  | .added | .modified => known.insert e.key (e.uid, e.payload)
  | .deleted => known.erase e.key

/-- What the items of a stream tell about the objects of a kind. -/
def known (log : List Event) (kind : Kind) : Table Key (String × Option String) :=
  (log.filter fun e => e.kind = kind).foldl learn ∅

theorem get?_learn (table : Table Key (String × Option String)) (e : Event) (key : Key) :
    (learn table e).get? key = if key = e.key then e.taught else table.get? key := by
  unfold learn Event.taught
  cases e.change with
  | added | modified => exact Table.get?_insert _ _ _ _
  | deleted => exact Table.get?_erase _ _ _

theorem get?_known_append (log : List Event) (e : Event) (kind : Kind) (key : Key) :
    (known (log ++ [e]) kind).get? key =
      if e.kind = kind ∧ e.key = key then e.taught else (known log kind).get? key := by
  unfold known
  by_cases hk : e.kind = kind
  · simp [List.filter_append, hk, get?_learn, eq_comm]
  · simp [List.filter_append, hk]

namespace World

variable {w w' : World} {i g : Nat} {t : Task} {c c' : Collector} {hub : Hub Event}
  {made : List Commit} {sent : Option (Nat × Event)} {spent : Option Hub.PacedRef} {n : String}
  {a : Action}

/-- What the stream told about an object. -/
def told (w : World) (g : Nat) (kind : Kind) (key : Key) : Option (String × Option String) :=
  (known (w.hub.logOf g) kind).get? key

/-- What a node ought to know about an object. -/
def due (w : World) (kind : Kind) (key : Key) (n : String) : Option (String × Option String) :=
  (w.collectors.get? kind).bind fun c => shown (c.cache.get? key) n

/-- Some cycle has committed and may still tell the stream of the node about the object. -/
def Owed (w : World) (g : Nat) (kind : Kind) (key : Key) (n : String) : Prop :=
  ∃ j t, w.tasks.get? j = some t ∧ t.kind = kind ∧ ∃ e ∈ t.owesTo g, e.key = key ∧ e.node = n

/-- Nothing more needs to be told to the stream, unless it is owed. -/
def Settled (w : World) (g : Nat) (kind : Kind) (key : Key) (n : String) : Prop :=
  w.Owed g kind key n ∨ w.told g kind key = w.due kind key n

theorem due_eq (hc : w.collectors.get? kind = some c) (key : Key) (n : String) :
    w.due kind key n = shown (c.cache.get? key) n := by
  simp [due, hc]

/-! ## What a turn changes -/

namespace Turn

theorem told_of_sent (T : Turn w i t c c' hub made sent spent) {e : Event}
    (hs : sent = some (g, e)) :
    (w.advance i t c' hub made).told g e.kind e.key = e.taught := by
  have hlog := T.moves.log g
  subst hs
  simp only [Option.toList_some, List.filter_cons, decide_true, if_true, List.filter_nil,
    List.map_cons, List.map_nil] at hlog
  show (known (hub.logOf g) e.kind).get? e.key = e.taught
  rw [hlog, get?_known_append, if_pos ⟨rfl, rfl⟩]

theorem told_of_not_sent (T : Turn w i t c c' hub made sent spent)
    (hs : ∀ e, sent = some (g, e) → e.kind = kind → e.key ≠ key) :
    (w.advance i t c' hub made).told g kind key = w.told g kind key := by
  have hlog := T.moves.log g
  show (known (hub.logOf g) kind).get? key = (known (w.hub.logOf g) kind).get? key
  rw [hlog]
  cases sent with
  | none => simp
  | some x =>
    obtain ⟨g', e⟩ := x
    by_cases hg : g' = g
    · subst hg
      have hno : ¬ (e.kind = kind ∧ e.key = key) := fun h => hs e rfl h.1 h.2
      simp only [Option.toList_some, List.filter_cons, decide_true, if_true, List.filter_nil,
        List.map_cons, List.map_nil, get?_known_append, if_neg hno]
    · simp [hg]

theorem due_same (T : Turn w i t c c' hub made sent spent) (key : Key)
    (h : shown (c'.cache.get? key) n = shown (c.cache.get? key) n) (kind : Kind) :
    (w.advance i t c' hub made).due kind key n = w.due kind key n := by
  unfold due
  rw [get?_collectors_advance]
  split
  · next hk =>
    rw [hk, T.collector]
    exact h
  · rfl

theorem owed_of_owes {e : Event} (he : e ∈ t.owesTo g) :
    (w.advance i t c' hub made).Owed g t.kind e.key e.node :=
  ⟨i, t, by rw [get?_tasks_advance, if_pos rfl], rfl, e, he, rfl, rfl⟩

theorem told_eq_due (T : Turn w i t c c' hub made sent spent) {e : Event}
    (hs : sent = some (g, e)) :
    (w.advance i t c' hub made).told g e.kind e.key =
      (w.advance i t c' hub made).due e.kind e.key e.node := by
  obtain ⟨hmade, hkind, -, htells, -⟩ := T.speaks hs
  have hsame : c'.cache.get? e.key = c.cache.get? e.key := by
    rcases T.committed e.key with ⟨-, h⟩ | ⟨h, -⟩
    · exact h
    · rw [hmade] at h
      contradiction
  rw [T.told_of_sent hs, T.due_same e.key (by rw [hsame]), hkind, due_eq T.collector, htells.taught]

/-- After a turn the object is settled for the stream, or nothing has changed about it. -/
theorem settles (T : Turn w i t c c' hub made sent spent) (S : w.Sound)
    (hslot : hub.slots.get? n = some g) (hold : g < w.hub.nextGeneration) (kind : Kind)
    (key : Key) :
    (w.advance i t c' hub made).Settled g kind key n ∨ ¬ w.Owed g kind key n ∧
      (w.advance i t c' hub made).told g kind key = w.told g kind key ∧
      (w.advance i t c' hub made).due kind key n = w.due kind key n := by
  obtain ⟨s, hs, hn, -⟩ := S.hub.connected (T.moves.slot hold hslot)
  by_cases howed : w.Owed g kind key n
  · left
    obtain ⟨j, t', ht, rfl, e, he, rfl, rfl⟩ := howed
    by_cases hj : j = i
    · subst hj
      have hpays := T.pays g e (by simpa [owesOf, ht] using he)
      rw [T.same ht]
      rcases hpays with he' | hsent
      · exact Or.inl (owed_of_owes he')
      · have hk := (T.speaks (hsent hslot)).2.1
        exact Or.inr (hk ▸ T.told_eq_due (hsent hslot))
    · -- Another task owes the event, and it has not moved.
      exact Or.inl ⟨j, t', by rw [get?_tasks_advance, if_neg hj, ht], rfl, e, he, rfl, rfl⟩
  · by_cases hsent : ∃ e, sent = some (g, e) ∧ e.kind = kind ∧ e.key = key
    · obtain ⟨e, hse, rfl, rfl⟩ := hsent
      obtain ⟨-, -, hnode, -, -⟩ := T.speaks hse
      rw [Hub.nodeOf_eq hs, hn, Option.some.injEq] at hnode
      rw [hnode]
      exact Or.inl (Or.inr (T.told_eq_due hse))
    · have htold : (w.advance i t c' hub made).told g kind key = w.told g kind key := by
        refine T.told_of_not_sent fun e hse hk hkey => hsent ⟨e, hse, hk, hkey⟩
      by_cases hk : kind = t.kind
      · rcases T.owes key n with hsame | hnew
        · exact Or.inr ⟨howed, htold, T.due_same key hsame kind⟩
        · obtain ⟨e, he, rfl, rfl⟩ := hnew g
          exact Or.inl (Or.inl (hk ▸ owed_of_owes he))
      · refine Or.inr ⟨howed, htold, ?_⟩
        unfold due
        rw [get?_collectors_advance, if_neg hk]

theorem settled (T : Turn w i t c c' hub made sent spent) (S : w.Sound)
    (hslot : hub.slots.get? n = some g) (hold : g < w.hub.nextGeneration)
    (h : w.Settled g kind key n) : (w.advance i t c' hub made).Settled g kind key n := by
  rcases T.settles S hslot hold kind key with hs | ⟨hno, htold, hdue⟩
  · exact hs
  · rcases h with howed | h
    · exact absurd howed hno
    · exact Or.inr (htold.trans (h.trans hdue.symm))

end Turn

/-! ## What connected streams know -/

theorem logOf_unknown (v : w.hub.Valid) (hg : w.hub.nextGeneration ≤ g) : w.hub.logOf g = [] := by
  have hnone : w.hub.streams.get? g = none := by
    rw [Option.eq_none_iff_forall_ne_some]
    intro s hs
    exact absurd (v.known hs) (Nat.not_lt_of_le hg)
  simp [Hub.logOf, hnone]

/-- A connected stream was told what its node ought to know, or nothing. -/
def Honest (w : World) : Prop :=
  ∀ ⦃n g⦄, w.hub.slots.get? n = some g → ∀ kind key,
    w.told g kind key = none ∨ w.Settled g kind key n

theorem Honest.advance (H : w.Honest) (S : w.Sound) (T : Turn w i t c c' hub made sent spent) :
    (w.advance i t c' hub made).Honest := by
  intro n g hslot kind key
  by_cases hold : g < w.hub.nextGeneration
  · rcases T.settles S hslot hold kind key with hs | ⟨-, htold, hdue⟩
    · exact Or.inr hs
    · rcases H (T.moves.slot hold hslot) kind key with hnone | hsettled
      · exact Or.inl (htold.trans hnone)
      · exact Or.inr (T.settled S hslot hold hsettled)
  · have hunknown := logOf_unknown S.hub (Nat.le_of_not_lt hold)
    left
    rw [T.told_of_not_sent, told, hunknown]
    · rfl
    · intro e hs _ _
      obtain ⟨-, -, hnode, -⟩ := T.speaks hs
      obtain ⟨s, hs, -⟩ := Hub.nodeOf_eq_some.1 hnode
      exact hold (S.hub.known hs)

theorem told_withHub (m : Hub.Moves w.hub hub none none) (g : Nat) (kind : Kind) (key : Key) :
    World.told { w with hub } g kind key = w.told g kind key := by
  have hlog := m.log g
  simp only [Option.toList_none, List.filter_nil, List.map_nil, List.append_nil] at hlog
  simp only [told, hlog]

theorem Honest.withHub (H : w.Honest) (S : w.Sound) (m : Hub.Moves w.hub hub none none) :
    Honest { w with hub } := by
  intro n g hslot kind key
  by_cases hold : g < w.hub.nextGeneration
  · rcases H (m.slot hold hslot) kind key with hnone | hsettled
    · exact Or.inl ((told_withHub m g kind key).trans hnone)
    · exact Or.inr (hsettled.imp_right fun h => (told_withHub m g kind key).trans h)
  · left
    rw [told_withHub m, told, logOf_unknown S.hub (Nat.le_of_not_lt hold)]
    rfl

theorem Honest.step (H : w.Honest) (S : w.Sound) (h : w.step a = some w') : w'.Honest := by
  obtain ⟨i, t, c, c', hub, made, sent, spent, rfl, T⟩ | ⟨hub, rfl, m⟩ := step_cases S h
  · exact H.advance S T
  · exact H.withHub S m

end World

end Nodecast
