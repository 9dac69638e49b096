import Nodecast.Proofs.System.Runs

/-!
# The order of events

Whatever a stream ever held about an object was left by a commit, and never by an older commit than
what the stream held about it before.
-/

namespace Nodecast.World

variable {w w' : World} {i g : Nat} {t : Task} {c c' : Collector} {hub : Hub Event}
  {made : List Commit} {sent : Option (Nat × Event)} {spent : Option Hub.PacedRef} {kind : Kind}
  {s : Hub.Stream Event} {a : Action}

/-! ## What is sent -/

/-- The streams hold what was sent, and what was sent tells what its commit left. -/
structure Faithful (w : World) : Prop where
  journal : ∀ g, w.hub.logOf g = (w.sent.filter fun x => x.stream = g).map Sent.event
  told : ∀ x ∈ w.sent, w.hub.nodeOf x.stream = some x.event.node ∧
    ∃ last, (w.lefts x.event.kind x.event.key)[x.commit]? = some last ∧ x.event.Tells last
  ordered : w.sent.Pairwise fun a b =>
    a.event.kind = b.event.kind → a.event.key = b.event.key → a.commit ≤ b.commit

theorem Turn.sends (T : Turn w i t c c' hub made sent spent) : w.hub.sends hub = sent.toList :=
  T.moves.sends fun _ hx => ⟨_, (T.speaks hx).2.2.1⟩

theorem Turn.sent_advance (T : Turn w i t c c' hub made sent spent) :
    (w.advance i t c' hub made).sent =
      w.sent ++ sent.toList.map fun (g, e) => ⟨g, e, t.commit, i⟩ := by
  rw [← T.sends]
  rfl

theorem lefts_prefix (made : List Commit) (kind : Kind) (key : Key) {n : Nat}
    {last : Option Entry} (h : (w.lefts kind key)[n]? = some last) :
    ((w.advance i t c hub made).lefts kind key)[n]? = some last := by
  rw [lefts_advance, List.getElem?_append_left (List.getElem?_eq_some_iff.1 h).1, h]

theorem Faithful.advance (F : w.Faithful) (S : w.Sound)
    (T : Turn w i t c c' hub made sent spent) : (w.advance i t c' hub made).Faithful where
  journal := by
    intro g
    rw [T.sent_advance, List.filter_append, List.map_append, ← F.journal g]
    show hub.logOf g = _
    rw [T.moves.log]
    congr 1
    cases sent with
    | none => rfl
    | some x =>
      by_cases e : x.1 = g
      · simp [e]
      · simp [e]
  told := by
    intro x hx
    rw [T.sent_advance] at hx
    rcases List.mem_append.1 hx with hx | hx
    · obtain ⟨hnode, last, hlast, htells⟩ := F.told x hx
      exact ⟨T.moves.node hnode, last, lefts_prefix made _ _ hlast, htells⟩
    · obtain ⟨⟨g, e⟩, he, rfl⟩ := List.mem_map.1 hx
      obtain ⟨-, hkind, hnode, htells, hcommit⟩ := T.speaks (Option.mem_toList.1 he)
      refine ⟨T.moves.node hnode, c.cache.get? e.key, lefts_prefix made _ _ ?_, htells⟩
      -- The task speaks of the last commit, which left what is cached.
      have hcached := S.cached T.collector e.key
      have hlen : t.commit < (w.lefts t.kind e.key).length := by omega
      have hsub : (w.lefts t.kind e.key).length - 1 = t.commit := by omega
      rw [List.getLast?_eq_getElem?, hsub, List.getElem?_eq_getElem hlen] at hcached
      rw [hkind, hcached, List.getElem?_eq_getElem hlen]
      rfl
  ordered := by
    rw [T.sent_advance]
    refine List.pairwise_append.2 ⟨F.ordered, ?_, ?_⟩
    · cases sent <;> simp
    · intro x hx z hz hk hkey
      obtain ⟨⟨g, e⟩, he, rfl⟩ := List.mem_map.1 hz
      obtain ⟨-, hkind, -, -, hcommit⟩ := T.speaks (Option.mem_toList.1 he)
      obtain ⟨-, last, hlast, -⟩ := F.told x hx
      obtain ⟨hlt, -⟩ := List.getElem?_eq_some_iff.1 hlast
      rw [hk, hkey] at hlt
      simp only at hlt hkind
      rw [hkind] at hlt
      show x.commit ≤ t.commit
      omega

theorem Faithful.withHub (F : w.Faithful) (m : Hub.Moves w.hub hub none none) :
    Faithful { w with hub } where
  journal := by
    intro g
    show hub.logOf g = _
    rw [m.log g]
    simpa using F.journal g
  told := by
    intro x hx
    obtain ⟨hnode, hlast⟩ := F.told x hx
    exact ⟨m.node hnode, hlast⟩
  ordered := F.ordered

theorem Faithful.step (F : w.Faithful) (S : w.Sound) (h : w.step a = some w') : w'.Faithful := by
  obtain ⟨i, t, c, c', hub, made, sent, spent, rfl, T⟩ | ⟨hub, rfl, m⟩ := step_cases S h
  · exact F.advance S T
  · exact F.withHub m

theorem faithful_start (s : Settings) : (start s).Faithful where
  journal := by
    intro g
    rw [Hub.logOf, start_streams]
    rfl
  told := fun _ hx => nomatch hx
  ordered := .nil

theorem Reachable.faithful (h : Reachable w) : w.Faithful := by
  induction h with
  | start s => exact faithful_start s
  | step a hw hs ih => exact ih.step hw.sound hs

/-! ## The items about one object -/

/-- The items of a stream about one object, with what they were sent for. -/
def sentAbout (w : World) (g : Nat) (kind : Kind) (key : Key) : List Sent :=
  w.sent.filter fun x => x.stream = g ∧ x.event.kind = kind ∧ x.event.key = key

/-- Every item about the object tells the node of the stream what a commit left for it. No commit is
older than the one that the item before tells of. -/
def KeepsOrder (w : World) (g : Nat) (s : Hub.Stream Event) (kind : Kind) (key : Key) : Prop :=
  (w.sentAbout g kind key).map Sent.event = s.log.filter (fun e => e.kind = kind ∧ e.key = key) ∧
  (∀ x ∈ w.sentAbout g kind key, x.event.node = s.node ∧
    ∃ last, (w.lefts kind key)[x.commit]? = some last ∧ x.event.Tells last) ∧
  (w.sentAbout g kind key).Pairwise fun a b => a.commit ≤ b.commit

theorem keeps_order (h : Reachable w) (hs : w.hub.streams.get? g = some s) (kind : Kind)
    (key : Key) : w.KeepsOrder g s kind key := by
  have F := h.faithful
  have hmem : ∀ {x}, x ∈ w.sentAbout g kind key →
      x ∈ w.sent ∧ x.stream = g ∧ x.event.kind = kind ∧ x.event.key = key := by
    intro x hx
    simpa [sentAbout] using hx
  refine ⟨?_, ?_, ?_⟩
  · have hlog := F.journal g
    rw [Hub.logOf_eq hs] at hlog
    rw [hlog, sentAbout, List.filter_map, List.filter_filter]
    congr 2
    funext x
    simp [Bool.and_comm]
  · intro x hx
    obtain ⟨hsent, rfl, rfl, rfl⟩ := hmem hx
    obtain ⟨hnode, hlast⟩ := F.told x hsent
    rw [Hub.nodeOf_eq hs, Option.some.injEq] at hnode
    exact ⟨hnode.symm, hlast⟩
  · refine (F.ordered.filter _).imp_of_mem ?_
    intro a b ha hb hab
    obtain ⟨-, -, hk, hkey⟩ := hmem ha
    obtain ⟨-, -, hk', hkey'⟩ := hmem hb
    exact hab (hk.trans hk'.symm) (hkey.trans hkey'.symm)

/-! ## A node that comes back -/

/-- A node connects again after a cycle has found its stream. The cycle tells the stream that was
replaced of a Deployment, and a replay tells the new one. -/
def comeback : List Action :=
  [.wish (.register "a"), .reconcile .deployment ⟨"default", "web"⟩, .cycle 0 (.lock false),
    .cycle 0 (.fetch (.ok (some default))), .cycle 0 (.resolve (.ok (.ofList ["a"]))),
    .cycle 0 (.commit false), .cycle 0 .push, .wish (.register "a"), .wish (.announce "a"),
    .cycle 0 .offer, .cycle 0 .finish, .join .deployment,
    .replay 1 (.list ⟨"default", "web"⟩), .replay 1 (.visit false), .replay 1 .lock,
    .replay 1 .reserve, .replay 1 .resume, .replay 1 (.visit false)]

theorem keeps_order_comeback :
    ∃ w old new, Reachable w ∧ w.hub.slots.get? "a" = some 2 ∧
      w.hub.streams.get? 1 = some old ∧ old.log.length = 1 ∧
      w.KeepsOrder 1 old .deployment ⟨"default", "web"⟩ ∧
      w.hub.streams.get? 2 = some new ∧ new.log.length = 1 ∧
      w.KeepsOrder 2 new .deployment ⟨"default", "web"⟩ := by
  have hrun : ∃ w old new, (start {}).run comeback = some w ∧ w.hub.slots.get? "a" = some 2 ∧
      w.hub.streams.get? 1 = some old ∧ old.log.length = 1 ∧
      w.hub.streams.get? 2 = some new ∧ new.log.length = 1 :=
    ⟨_, _, _, rfl, rfl, rfl, rfl, rfl, rfl⟩
  obtain ⟨w, old, new, hw, hslot, hold, holdlog, hnew, hnewlog⟩ := hrun
  have hr := (Reachable.start {}).run hw
  exact ⟨w, old, new, hr, hslot, hold, holdlog, keeps_order hr hold _ _, hnew, hnewlog,
    keeps_order hr hnew _ _⟩

end Nodecast.World
