import Nodecast.Proofs.System.Turn
import Nodecast.Proofs.Tasks

/-!
# Every step is a turn

Cycles and replays take turns only. So what every task may rely on holds in every state that the
system can come to.
-/

namespace Nodecast

open KeyedLock (Keeps)

variable {w w' : World} {i : Nat} {t t' : Task} {c c' : Collector} {hub : Hub Event} {y y' : Cycle}
  {r : Replay} {sent : Option (Nat × Event)} {spent : Option Hub.PacedRef} {ticket : Nat}
  {key : Key}

/-! ## Turns without a commit -/

/-- Only locks change, and they change by what is done with one call. -/
structure Collector.Relocks (c c' : Collector) (ticket : Nat) : Prop where
  kind : c'.kind = c.kind
  cache : c'.cache = c.cache
  locks : c'.locks.Valid
  keeps : ∀ {x}, x ≠ ticket → x < c.locks.nextTicket → Keeps c.locks c'.locks x

namespace Collector.Relocks

theorem refl (v : c.locks.Valid) (ticket : Nat) : c.Relocks c ticket :=
  ⟨rfl, rfl, v, fun _ _ _ => ⟨id, id⟩⟩

theorem take (v : c.locks.Valid) (ticket : Nat) :
    c.Relocks { c with locks := c.locks.take ticket } ticket :=
  ⟨rfl, rfl, v.take ticket, fun _ _ => KeyedLock.keeps_take _ _⟩

theorem release (R : c.Relocks c' ticket) (h : c'.locks.Holds ticket key) :
    c.Relocks (c'.release ticket) ticket where
  kind := R.kind
  cache := R.cache
  locks := R.locks.release h
  keeps := by
    intro x hx hlt k
    have h1 := R.keeps hx hlt k
    have h2 := KeyedLock.keeps_release (l := c'.locks) hx k
    exact ⟨fun a => h2.1 (h1.1 a), fun a => h2.2 (h1.2 a)⟩

theorem request (v : c.locks.Valid) (key : Key) :
    c.Relocks { c with locks := (c.locks.request key).2 } (c.locks.request key).1 :=
  ⟨rfl, rfl, v.request key, fun _ _ => v.keeps_request key _⟩

end Collector.Relocks

namespace World

theorem Turn.of_relocks (S : w.Sound) (hc : w.collectors.get? t.kind = some c)
    (hsame : ∀ {t'}, w.tasks.get? i = some t' → t'.kind = t.kind)
    (hsince : t.since ≤ w.hub.nextGeneration) (R : c.Relocks c' ticket)
    (hmine : w.ticketOf i = some ticket ∨ c.locks.nextTicket ≤ ticket)
    (hticket : ∀ {x}, t.ticket? = some x → x = ticket) (moves : Hub.Moves w.hub hub sent spent)
    (hends : ∀ {r}, spent = some r → w.pushOf i = some r)
    (hpush : ∀ {r}, t.push? = some r → w.pushOf i = some r ∨ w.hub.nextTicket ≤ r.ticket)
    (hsound : t.Sound c' hub fun key => (w.lefts t.kind key).length)
    (hspeaks : ∀ {g e}, sent = some (g, e) → e.kind = t.kind ∧
      w.hub.nodeOf g = some e.node ∧ e.Tells (c.cache.get? e.key) ∧
      t.commit + 1 = (w.lefts t.kind e.key).length)
    (hpays : ∀ g, ∀ e ∈ w.owesOf i g, e ∈ t.owesTo g ∨
      (hub.slots.get? e.node = some g → sent = some (g, e))) :
    Turn w i t c c' hub [] sent spent where
  collector := hc
  same := hsame
  since := Nat.le_trans hsince moves.generation
  kind := R.kind
  locks := R.locks
  keeps := by
    intro x hx hlt
    refine R.keeps ?_ hlt
    rintro rfl
    rcases hmine with hm | hm
    · exact hx hm
    · omega
  ticket := by
    intro x hx
    rw [hticket hx]
    exact hmine
  moves := moves
  ends := hends
  push := hpush
  committed := by
    intro key
    rw [R.cache]
    exact Or.inl ⟨rfl, rfl⟩
  foreign := by simp
  entries := by
    intro key e he
    rw [R.cache] at he
    exact S.entries hc he
  sound := by
    rw [List.append_nil]
    exact hsound
  speaks := fun he => ⟨rfl, hspeaks he⟩
  owes := by
    intro key node
    rw [R.cache]
    exact Or.inl rfl
  pays := hpays

theorem kind_eq (ht : w.tasks.get? i = some t) {t' : Task} (ht' : w.tasks.get? i = some t') :
    t'.kind = t.kind := by
  rw [ht, Option.some.injEq] at ht'
  rw [ht']

/-! ## Turns of cycles -/

section Cycles

variable {m : Cycle.Move}

theorem ticketOf_cycle (ht : w.tasks.get? i = some t) (ha : t.activity = .cycle y) :
    w.ticketOf i = y.ticket? := by
  simp [ticketOf, ht, Task.ticket?, ha]

theorem owesOf_cycle (ht : w.tasks.get? i = some t) (ha : t.activity = .cycle y) (g : Nat) :
    w.owesOf i g = y.owesTo g := by
  simp [owesOf, ht, Task.owesTo, ha]

theorem Turn.of_cycle (S : w.Sound) (ht : w.tasks.get? i = some t) (ha : t.activity = .cycle y)
    (hc : w.collectors.get? t.kind = some c) (hmine : y.ticket? = some y.ticket)
    (hticket : y'.ticket = y.ticket) (R : c.Relocks c' y.ticket)
    (howes : ∀ g, y.owesTo g = [])
    (hsound : y'.Sound c' w.hub (w.lefts t.kind y'.key).length t.commit) :
    Turn w i { t with activity := .cycle y' } c c' w.hub [] none none := by
  refine .of_relocks S hc (kind_eq ht) (S.begun ht).2 R (.inl ?_) ?_
    (S.hub.moves_of_streams rfl rfl id rfl rfl) (by simp) (by simp [Task.push?]) hsound (by simp) ?_
  · rw [ticketOf_cycle ht ha, hmine]
  · intro x hx
    simp only [Task.ticket?, Cycle.ticket?] at hx
    rw [← hticket]
    split at hx
    · contradiction
    · exact (Option.some.inj hx).symm
  · simp [owesOf_cycle ht ha, howes]

theorem Turn.of_endCycle (S : w.Sound) (ht : w.tasks.get? i = some t)
    (ha : t.activity = .cycle y) (hc : w.collectors.get? t.kind = some c)
    (hmine : y.ticket? = some y.ticket) (R : c.Relocks c' y.ticket) (howes : ∀ g, y.owesTo g = [])
    (hholds : c'.locks.Holds y.ticket y.key) (outcome : Except CycleError (List Event)) :
    Turn w i { t with activity := .cycle (c'.endCycle y outcome).1 } c (c'.endCycle y outcome).2
      w.hub [] none none :=
  .of_cycle S ht ha hc hmine rfl (R.release hholds) howes trivial

theorem Turn.of_commit (S : w.Sound) (ht : w.tasks.get? i = some t) (ha : t.activity = .cycle y)
    (hc : w.collectors.get? t.kind = some c) {hadPrior : Bool} {tr : Transition}
    (hs : y.stage = .committing hadPrior tr) (hholds : c.locks.Holds y.ticket y.key)
    (hhad : hadPrior = (c.cache.get? y.key).isSome)
    (hleads : tr.LeadsFrom c.kind (c.cache.get? y.key)) :
    let y' := (c.commit y hadPrior tr false).1
    let c' := (c.commit y hadPrior tr false).2
    Turn w i { t with activity := .cycle y', commit := (w.lefts t.kind y.key).length } c c' w.hub
      [⟨t.kind, y.key, c'.cache.get? y.key⟩] none none := by
  have hcache := get?_commit hhad tr
  have hkind := S.kinds hc
  have hmine : w.ticketOf i = some y.ticket := by
    rw [ticketOf_cycle ht ha]
    simp [Cycle.ticket?, hs]
  intro y' c'
  have hget : ∀ key, c'.cache.get? key = if key = y.key then tr.left else c.cache.get? key := hcache
  refine
    { collector := hc
      same := kind_eq ht
      since := (S.begun ht).2
      kind := rfl
      locks := (S.locks hc : c.locks.Valid)
      keeps := fun _ _ _ => ⟨id, id⟩
      ticket := ?_
      moves := S.hub.moves_of_streams rfl rfl id rfl rfl
      ends := by simp
      push := by simp [Task.push?]
      committed := ?_
      foreign := by simp
      entries := ?_
      sound := ?_
      speaks := by simp
      owes := ?_
      pays := ?_ }
  · intro x hx
    exact Or.inl (hmine.trans hx)
  · intro key
    by_cases hk : key = y.key
    · subst hk
      exact Or.inr ⟨by simp [leftsOf], y.ticket, hmine, hholds⟩
    · refine Or.inl ⟨by simp [leftsOf, Ne.symm hk], ?_⟩
      rw [hget, if_neg hk]
  · intro key e he
    rw [hget] at he
    split at he
    · rw [Transition.left_eq_some he]
      exact hleads.kind.trans hkind
    · exact S.entries hc he
  · refine ⟨hholds, ?_, ?_⟩
    · simp [lefts, leftsOf, y', Collector.commit]
    · intro e he
      show e.kind = c.kind ∧ e.key = y.key ∧ e.Tells (c'.cache.get? y.key)
      rw [hget, if_pos rfl]
      exact hleads.event he
  · intro key node
    rw [hget]
    split
    · next hk =>
      subst hk
      refine (hleads.event_or_same y.key node).symm.imp_right ?_
      rintro ⟨e, he, hn⟩ g
      exact ⟨e, he, (hleads.event he).2.1, hn⟩
    · exact Or.inl rfl
  · simp [owesOf_cycle ht ha, Cycle.owesTo, hs]

/-- A cycle that pushes. What it has still to tell a stream it tells, unless the node of the event
is not connected through the stream. -/
theorem Turn.of_pushing (S : w.Sound) (ht : w.tasks.get? i = some t) (ha : t.activity = .cycle y)
    (hc : w.collectors.get? t.kind = some c) (R : c.Relocks c' y.ticket)
    (hmine : y.ticket? = some y.ticket) (hticket : y'.ticket? = some y.ticket)
    (moves : Hub.Moves w.hub hub sent none)
    (hy : y'.Sound c' hub (w.lefts t.kind y'.key).length t.commit)
    (hspeaks : ∀ {g e}, sent = some (g, e) → e.kind = t.kind ∧
      w.hub.nodeOf g = some e.node ∧ e.Tells (c.cache.get? e.key) ∧
      t.commit + 1 = (w.lefts t.kind e.key).length)
    (hpays : ∀ g, ∀ e ∈ y.owesTo g, e ∈ y'.owesTo g ∨
      (hub.slots.get? e.node = some g → sent = some (g, e))) :
    Turn w i { t with activity := .cycle y' } c c' hub [] sent none := by
  refine .of_relocks S hc (kind_eq ht) (S.begun ht).2 R (.inl ?_) ?_ moves (by simp)
    (by simp [Task.push?]) hy hspeaks ?_
  · rw [ticketOf_cycle ht ha, hmine]
  · intro x hx
    exact (Option.some.inj (hticket.symm.trans hx)).symm
  · intro g e he
    rw [owesOf_cycle ht ha] at he
    exact hpays g e he

theorem Turn.of_find (S : w.Sound) (ht : w.tasks.get? i = some t) (ha : t.activity = .cycle y)
    (hc : w.collectors.get? t.kind = some c) {events rest : List Event} {e : Event}
    (hs : y.stage = .pushing events (e :: rest))
    (hy : y.Speaks c (w.lefts t.kind y.key).length t.commit (e :: rest)) {stage : Cycle.Stage}
    (moves : Hub.Moves w.hub hub none none) (hslots : hub.slots = w.hub.slots)
    (hstage : stage = .pushing events rest ∧ w.hub.slots.get? e.node = none ∨
      ∃ g, stage = .offering events g e rest ∧ w.hub.slots.get? e.node = some g) :
    Turn w i { t with activity := .cycle { y with stage } } c
      { c with counts := c.counts.record e.change } hub [] none none := by
  obtain ⟨hholds, hcommit, hrest⟩ := hy
  have R : c.Relocks { c with counts := c.counts.record e.change } y.ticket :=
    ⟨rfl, rfl, (S.locks hc : c.locks.Valid), fun _ _ _ => ⟨id, id⟩⟩
  refine .of_pushing S ht ha hc R (by simp [Cycle.ticket?, hs]) ?_ moves ?_ (by simp) ?_
  · rcases hstage with ⟨rfl, -⟩ | ⟨g, rfl, -⟩ <;> rfl
  · rcases hstage with ⟨rfl, -⟩ | ⟨g, rfl, hg⟩
    · exact ⟨hholds, hcommit, fun e' he' => hrest e' (List.mem_cons_of_mem _ he')⟩
    · obtain ⟨s, hs, hn, -⟩ := S.hub.connected hg
      exact ⟨⟨hholds, hcommit, hrest⟩, moves.node (Hub.nodeOf_eq_some.2 ⟨s, hs, hn⟩)⟩
  · intro g' e' he'
    simp only [Cycle.owesTo, hs] at he'
    rw [hslots]
    rcases hstage with ⟨rfl, hnone⟩ | ⟨g, rfl, hg⟩
    · rcases List.mem_cons.1 he' with rfl | he'
      · exact Or.inr (by simp [hnone])
      · exact Or.inl he'
    · by_cases he : g = g'
      · exact Or.inl (by simpa [Cycle.owesTo, he] using he')
      · rcases List.mem_cons.1 he' with rfl | he'
        · exact Or.inr (by simp [hg, he])
        · exact Or.inl (by simpa [Cycle.owesTo, he] using he')

theorem Turn.of_offer (S : w.Sound) (ht : w.tasks.get? i = some t) (ha : t.activity = .cycle y)
    (hc : w.collectors.get? t.kind = some c) {events rest : List Event} {e : Event} {g : Nat}
    (hs : y.stage = .offering events g e rest)
    (hy : y.Sound c w.hub (w.lefts t.kind y.key).length t.commit) :
    ∃ sent, Turn w i { t with activity := .cycle { y with stage := .pushing events rest } } c c
      (w.hub.offer e.node g e).2 [] sent none := by
  simp only [Cycle.Sound, hs] at hy
  obtain ⟨⟨hholds, hcommit, hrest⟩, hnode⟩ := hy
  obtain ⟨ek, ekey, etells⟩ := hrest e List.mem_cons_self
  obtain ⟨sent, moves, houtcome⟩ := S.hub.offer e.node g e
  refine ⟨sent, .of_pushing S ht ha hc (.refl (S.locks hc) y.ticket) (by simp [Cycle.ticket?, hs])
    rfl moves ⟨hholds, hcommit, fun e' he' => hrest e' (List.mem_cons_of_mem _ he')⟩ ?_ ?_⟩
  · intro g' e' hsent
    rcases houtcome with ⟨-, rfl⟩ | ⟨-, rfl, -⟩
    · cases hsent
      refine ⟨ek.trans (S.kinds hc), hnode, ?_, ?_⟩
      · rw [ekey]
        exact etells
      · rw [ekey]
        exact hcommit
    · contradiction
  · intro g' e' he'
    simp only [Cycle.owesTo, hs] at he'
    split at he'
    · next hg =>
      subst hg
      rcases List.mem_cons.1 he' with rfl | he'
      · refine Or.inr fun hslot => ?_
        rcases houtcome with ⟨-, hsent⟩ | ⟨-, -, hgone⟩
        · exact hsent
        · exact absurd hslot hgone
      · exact Or.inl he'
    · exact Or.inl he'

theorem Turn.of_step (S : w.Sound) (ht : w.tasks.get? i = some t) (ha : t.activity = .cycle y)
    (hc : w.collectors.get? t.kind = some c)
    (hy : y.Sound c w.hub (w.lefts t.kind y.key).length t.commit)
    (hstep : c.CycleStep w.hub y m y' c' hub) (hno : y.commits m = false) :
    ∃ sent, Turn w i { t with activity := .cycle y' } c c' hub [] sent none := by
  have v := S.locks hc
  have R := Collector.Relocks.refl v y.ticket
  cases hstep with
  | lock cancelled hs hgranted =>
    simp only [Cycle.Sound, hs] at hy
    have hmine : y.ticket? = some y.ticket := by simp [Cycle.ticket?, hs]
    have howes : ∀ g, y.owesTo g = [] := by simp [Cycle.owesTo, hs]
    have hholds := KeyedLock.holds_take hgranted hy
    have R := Collector.Relocks.take v y.ticket
    unfold Collector.locked
    cases cancelled
    · exact ⟨none, .of_cycle S ht ha hc hmine rfl R howes hholds⟩
    · exact ⟨none, .of_endCycle S ht ha hc hmine R howes hholds _⟩
  | fetch answer hs =>
    simp only [Cycle.Sound, hs] at hy
    have hmine : y.ticket? = some y.ticket := by simp [Cycle.ticket?, hs]
    have howes : ∀ g, y.owesTo g = [] := by simp [Cycle.owesTo, hs]
    unfold Collector.fetched
    split
    · exact ⟨none, .of_endCycle S ht ha hc hmine R howes hy _⟩
    · exact ⟨none, .of_endCycle S ht ha hc hmine R howes hy _⟩
    · next entry he =>
      have hleads := leadsFrom_retire entry
      rw [S.entries hc he, ← S.kinds hc] at hleads
      refine ⟨none, .of_cycle S ht ha hc hmine rfl R howes ⟨hy, ?_⟩⟩
      rw [he]
      exact ⟨rfl, hleads⟩
    · exact ⟨none, .of_cycle S ht ha hc hmine rfl R howes ⟨hy, rfl⟩⟩
  | resolve object prior answer hs =>
    simp only [Cycle.Sound, hs] at hy
    obtain ⟨hholds, hprior⟩ := hy
    have hmine : y.ticket? = some y.ticket := by simp [Cycle.ticket?, hs]
    have howes : ∀ g, y.owesTo g = [] := by simp [Cycle.owesTo, hs]
    unfold Collector.resolved
    split
    · exact ⟨none, .of_endCycle S ht ha hc hmine R howes hholds _⟩
    · next nodes =>
      have hkind : ∀ e, c.cache.get? y.key = some e → e.kind = c.kind :=
        fun e he => (S.entries hc he).trans (S.kinds hc).symm
      have hleads := leadsFrom_transition hkind object nodes
      rw [hprior]
      exact ⟨none, .of_cycle S ht ha hc hmine rfl R howes ⟨hholds, rfl, hleads⟩⟩
  | cancel hs =>
    rcases hs with hs | ⟨object, prior, hs⟩
    · simp only [Cycle.Sound, hs] at hy
      refine ⟨none, .of_endCycle S ht ha hc ?_ R ?_ hy _⟩
      · simp [Cycle.ticket?, hs]
      · simp [Cycle.owesTo, hs]
    · simp only [Cycle.Sound, hs] at hy
      refine ⟨none, .of_endCycle S ht ha hc ?_ R ?_ hy.1 _⟩
      · simp [Cycle.ticket?, hs]
      · simp [Cycle.owesTo, hs]
  | commit hadPrior tr cancelled hs =>
    simp only [Cycle.Sound, hs] at hy
    cases cancelled
    · simp [Cycle.commits, hs] at hno
    · refine ⟨none, .of_endCycle S ht ha hc ?_ R ?_ hy.1 _⟩
      · simp [Cycle.ticket?, hs]
      · simp [Cycle.owesTo, hs]
  | miss events e rest hs hnone =>
    simp only [Cycle.Sound, hs] at hy
    exact ⟨none, .of_find S ht ha hc hs hy (S.hub.refuse e.node) rfl
      (.inl ⟨rfl, S.hub.connection?_eq_none hnone⟩)⟩
  | find events e rest g s hs hconn =>
    simp only [Cycle.Sound, hs] at hy
    exact ⟨none, .of_find S ht ha hc hs hy (S.hub.moves_of_streams rfl rfl id rfl rfl) rfl
      (.inr ⟨g, rfl, (Hub.connection?_eq_some.1 hconn).1⟩)⟩
  | offer events g e rest hs => exact Turn.of_offer S ht ha hc hs hy
  | finish events hs =>
    simp only [Cycle.Sound, hs] at hy
    refine ⟨none, .of_endCycle S ht ha hc ?_ R ?_ hy.1 _⟩
    · simp [Cycle.ticket?, hs]
    · simp [Cycle.owesTo, hs]

theorem commits_iff : y.commits m = true ↔
    m = .commit false ∧ ∃ hadPrior t, y.stage = .committing hadPrior t := by
  unfold Cycle.commits
  split
  · next hs => simp [hs]
  · next hno =>
    simp only [Bool.false_eq_true, false_iff, not_and, not_exists]
    rintro rfl hadPrior t hs
    exact hno hadPrior t hs rfl

theorem cycle_turn (S : w.Sound) (ht : w.tasks.get? i = some t) (ha : t.activity = .cycle y)
    (hc : w.collectors.get? t.kind = some c) (hm : w.moveCycle i t c y m = some w') :
    ∃ t' y' c' hub made sent spent, c.CycleStep w.hub y m y' c' hub ∧ t'.activity = .cycle y' ∧
      w' = w.advance i t' c' hub made ∧ Turn w i t' c c' hub made sent spent := by
  obtain ⟨d, hd, hy⟩ := S.tasks ht
  rw [hc, Option.some.injEq] at hd
  subst hd
  simp only [Task.Sound, ha] at hy
  obtain ⟨⟨y', c', hub⟩, hstep, hw⟩ := Option.map_eq_some_iff.1 hm
  have hstep := Collector.moveCycle_step hstep
  dsimp only at hw
  split at hw
  · next hcommits =>
    obtain ⟨rfl, hadPrior, tr, hs⟩ := commits_iff.1 hcommits
    simp only [Cycle.Sound, hs] at hy
    obtain ⟨hholds, hhad, hleads⟩ := hy
    have hcommit := hstep
    cases hstep with
    | commit hadPrior' tr' _ hs' =>
      rw [hs] at hs'
      cases hs'
      exact ⟨_, _, _, _, _, _, _, hcommit, rfl, hw.symm,
        .of_commit S ht ha hc hs hholds hhad hleads⟩
  · next hno =>
    obtain ⟨sent, T⟩ := Turn.of_step S ht ha hc hy hstep (by simpa using hno)
    exact ⟨_, _, _, _, _, _, _, hstep, rfl, hw.symm, T⟩

end Cycles

/-! ## Turns of replays -/

section Replays

variable {r' : Replay} {m : Replay.Move} {commit : Nat}

theorem replayed?_eq_some {e : Event} (h : c.replayed? r key = some e) :
    ∃ entry, c.cache.get? key = some entry ∧ r.node ∈ entry.nodes ∧
      e = entry.eventFor key r.node .added := by
  obtain ⟨entry, he, rfl⟩ := Option.map_eq_some_iff.1 h
  obtain ⟨hc, hn⟩ := Option.filter_eq_some_iff.1 he
  exact ⟨entry, hc, by simpa [Entry.isAssociatedWith] using hn, rfl⟩

theorem Sound.lefts_ne_zero (S : w.Sound) {kind : Kind} {entry : Entry}
    (hc : w.collectors.get? kind = some c) (h : c.cache.get? key = some entry) :
    (w.lefts kind key).length ≠ 0 := by
  intro h0
  have hlast := S.cached hc key
  rw [h, List.length_eq_zero_iff.1 h0] at hlast
  contradiction

theorem Turn.of_replay (S : w.Sound) (ht : w.tasks.get? i = some t) (ha : t.activity = .replay r)
    (hc : w.collectors.get? t.kind = some c) (R : c.Relocks c' ticket)
    (hmine : r.ticket? = some ticket ∨ c.locks.nextTicket ≤ ticket)
    (hticket : ∀ {x}, r'.ticket? = some x → x = ticket) (moves : Hub.Moves w.hub hub sent spent)
    (hends : ∀ {push}, spent = some push → r.push? = some push)
    (hpush : ∀ {push}, r'.push? = some push → w.hub.nextTicket ≤ push.ticket)
    (hsound : r'.Sound c' hub (fun key => (w.lefts t.kind key).length) commit)
    (hspeaks : ∀ {g e}, sent = some (g, e) → e.kind = t.kind ∧
      w.hub.nodeOf g = some e.node ∧ e.Tells (c.cache.get? e.key) ∧
      commit + 1 = (w.lefts t.kind e.key).length) (cancelled : Bool) :
    Turn w i { t with activity := .replay r', commit, cancelled } c c' hub [] sent spent := by
  have hpushOf : w.pushOf i = r.push? := by simp [pushOf, ht, Task.push?, ha]
  have hticketOf : w.ticketOf i = r.ticket? := by simp [ticketOf, ht, Task.ticket?, ha]
  have howesOf : ∀ g, w.owesOf i g = [] := by simp [owesOf, ht, Task.owesTo, ha]
  refine .of_relocks S hc (kind_eq ht) (S.begun ht).2 R ?_ hticket moves ?_ ?_ hsound hspeaks ?_
  · rwa [hticketOf]
  · intro push hp
    rw [hpushOf]
    exact hends hp
  · intro push hp
    exact Or.inr (hpush hp)
  · simp [howesOf]

theorem Turn.of_letGo (S : w.Sound) (ht : w.tasks.get? i = some t) (ha : t.activity = .replay r)
    (hc : w.collectors.get? t.kind = some c) (R : c.Relocks c' ticket)
    (hmine : r.ticket? = some ticket) (hholds : c'.locks.Holds ticket key)
    (hfree : r'.stage = .visiting ∨ r'.stage = .ended) (moves : Hub.Moves w.hub hub sent spent)
    (hends : ∀ {push}, spent = some push → r.push? = some push)
    (hspeaks : ∀ {g e}, sent = some (g, e) → e.kind = t.kind ∧
      w.hub.nodeOf g = some e.node ∧ e.Tells (c.cache.get? e.key) ∧
      commit + 1 = (w.lefts t.kind e.key).length) (cancelled : Bool) :
    Turn w i { t with activity := .replay r', commit, cancelled } c (c'.release ticket) hub []
      sent spent := by
  refine .of_replay S ht ha hc (R.release hholds) (.inl hmine) ?_ moves hends ?_ ?_ hspeaks
    cancelled
  · rcases hfree with h | h <;> simp [Replay.ticket?, h]
  · rcases hfree with h | h <;> simp [Replay.push?, h]
  · rcases hfree with h | h <;> simp only [Replay.Sound, h]

theorem Turn.of_reach {e : Event} {s : Hub.Stream Event} {g : Nat} (S : w.Sound)
    (ht : w.tasks.get? i = some t) (ha : t.activity = .replay r)
    (hc : w.collectors.get? t.kind = some c) (hs : r.stage = .locking key ticket)
    (hholds : KeyedLock.Holds (c.locks.take ticket) ticket key)
    (he : c.replayed? r key = some e) (hconn : w.hub.connection? e.node = some (g, s))
    (cancelled : Bool) :
    Turn w i
      { t with
        activity := .replay { r with stage := .reaching key ticket g e }
        commit := (w.lefts t.kind key).length - 1, cancelled }
      c { c with locks := c.locks.take ticket } w.hub [] none none := by
  obtain ⟨entry, hcache, hnode, rfl⟩ := replayed?_eq_some he
  obtain ⟨hg, hstream⟩ := Hub.connection?_eq_some.1 hconn
  refine .of_replay S ht ha hc (.take (S.locks hc) ticket) (.inl (by simp [Replay.ticket?, hs])) ?_
    (S.hub.moves_of_streams rfl rfl id rfl rfl) (by simp) (by simp [Replay.push?]) ?_ (by simp)
    cancelled
  · intro x hx
    exact (Option.some.inj hx).symm
  · refine ⟨hholds, ?_, ?_, entry, hcache, hnode, rfl⟩
    · exact Nat.succ_pred_eq_of_ne_zero (S.lefts_ne_zero hc hcache)
    · exact Hub.nodeOf_eq_some.2 ⟨s, hstream, (S.hub.listens hg hstream).1⟩

theorem Turn.of_reserve {e : Event} {g : Nat} (S : w.Sound) (ht : w.tasks.get? i = some t)
    (ha : t.activity = .replay r) (hc : w.collectors.get? t.kind = some c)
    (hr : r.Sound c w.hub (fun key => (w.lefts t.kind key).length) t.commit)
    (hs : r.stage = .reaching key ticket g e) (cancelled : Bool) :
    Turn w i
      { t with
        activity := .replay { r with stage := .pacing key ticket (w.hub.reserve g e).1 }
        cancelled }
      c c (w.hub.reserve g e).2 [] none none := by
  simp only [Replay.Sound, hs] at hr
  obtain ⟨hholds, hcount, hnode, entry, hcache, hmem, rfl⟩ := hr
  obtain ⟨s, hstream, -⟩ := Hub.nodeOf_eq_some.1 hnode
  obtain ⟨moves, hi⟩ := S.hub.reserve hstream (entry.eventFor key r.node .added)
  refine .of_replay S ht ha hc (.refl (S.locks hc) ticket) (.inl (by simp [Replay.ticket?, hs])) ?_
    moves (by simp) ?_ ?_ (by simp) cancelled
  · intro x hx
    exact (Option.some.inj hx).symm
  · intro push hpush
    cases hpush
    exact Nat.le_refl _
  · exact ⟨hholds, hcount, moves.node hnode, entry, hcache, hmem, hi⟩

theorem Turn.of_sent {push : Hub.PacedRef} {e : Event} {n : Nat} (S : w.Sound)
    (ht : w.tasks.get? i = some t) (ha : t.activity = .replay r)
    (hc : w.collectors.get? t.kind = some c)
    (hr : r.Sound c w.hub (fun key => (w.lefts t.kind key).length) t.commit)
    (hs : r.stage = .pacing key ticket push) (hp : w.hub.resume? push = some (.ok (), hub))
    (he : w.hub.item? push = some e) (cancelled : Bool) :
    Turn w i { t with activity := .replay { r with count := n, stage := .visiting }, cancelled } c
      (c.release ticket) hub [] (some (push.generation, e)) (some push) := by
  simp only [Replay.Sound, hs] at hr
  obtain ⟨hholds, hcount, hg, entry, hcache, hnode, hi⟩ := hr
  rw [hi, Option.some.injEq] at he
  subst he
  refine .of_letGo S ht ha hc (.refl (S.locks hc) ticket) (by simp [Replay.ticket?, hs]) hholds
    (.inl rfl) (S.hub.resume_ok hp hi) ?_ ?_ cancelled
  · intro push' ho
    cases ho
    simp [Replay.push?, hs]
  · intro g e he
    cases he
    refine ⟨S.entries hc hcache, hg, ?_, hcount⟩
    rw [eventFor_key, hcache]
    exact tells_added hnode

theorem Turn.of_replayStep (S : w.Sound) (ht : w.tasks.get? i = some t)
    (ha : t.activity = .replay r) (hc : w.collectors.get? t.kind = some c)
    (hr : r.Sound c w.hub (fun key => (w.lefts t.kind key).length) t.commit)
    (hstep : c.ReplayStep w.hub r m r' c' hub sent)
    (hcommit : commit = match r.reads? m with
      | some key => (w.lefts t.kind key).length - 1
      | none => t.commit) (cancelled : Bool) :
    ∃ spent,
      Turn w i { t with activity := .replay r', commit, cancelled } c c' hub [] sent spent := by
  have v := S.locks hc
  have same : Hub.Moves w.hub w.hub none none := S.hub.moves_of_streams rfl rfl id rfl rfl
  -- A replay that waits for room gives its lock back when its push ends.
  have hends : ∀ {key ticket push}, r.stage = .pacing key ticket push →
      ∀ {push'}, some push = some push' → r.push? = some push' := by
    intro key ticket push hs push' hp
    rw [← hp, Replay.push?, hs]
  cases hstep with
  | list | pass | stop =>
    refine ⟨none, .of_replay S ht ha hc (.refl v c.locks.nextTicket) (.inr (Nat.le_refl _))
      (by simp [Replay.ticket?]) same (by simp) (by simp [Replay.push?]) ?_ (by simp) cancelled⟩
    trivial
  | next key rest hs hrest =>
    refine ⟨none, .of_replay S ht ha hc (.request v key) (.inr ?_) ?_ same (by simp)
      (by simp [Replay.push?]) ?_ (by simp) cancelled⟩
    · exact Nat.le_of_eq (KeyedLock.request_ticket c.locks key).symm
    · intro x hx
      exact (Option.some.inj hx).symm
    · exact KeyedLock.asks_request c.locks key
  | skip key ticket hs hgranted hnone =>
    simp only [Replay.Sound, hs] at hr
    have hholds := KeyedLock.holds_take hgranted hr
    exact ⟨none, .of_letGo S ht ha hc (.take v ticket) (by simp [Replay.ticket?, hs]) hholds
      (.inl rfl) same (by simp) (by simp) cancelled⟩
  | reach key ticket e g s hs hgranted he hconn =>
    simp only [Replay.Sound, hs] at hr
    simp only [Replay.reads?, hs] at hcommit
    subst hcommit
    exact ⟨none, .of_reach S ht ha hc hs (KeyedLock.holds_take hgranted hr) he hconn cancelled⟩
  | unheard key ticket e hs hgranted he hnone =>
    simp only [Replay.Sound, hs] at hr
    have hholds := KeyedLock.holds_take hgranted hr
    exact ⟨none, .of_letGo S ht ha hc (.take v ticket) (by simp [Replay.ticket?, hs]) hholds
      (.inr rfl) (S.hub.refuse e.node) (by simp) (by simp) cancelled⟩
  | stopped key ticket e hs hgranted he =>
    simp only [Replay.Sound, hs] at hr
    have hholds := KeyedLock.holds_take hgranted hr
    exact ⟨none, .of_letGo S ht ha hc (.take v ticket) (by simp [Replay.ticket?, hs]) hholds
      (.inr rfl) same (by simp) (by simp) cancelled⟩
  | reserve key ticket g e hs =>
    simp only [Replay.reads?, hs] at hcommit
    subst hcommit
    exact ⟨none, .of_reserve S ht ha hc hr hs cancelled⟩
  | sent key ticket push e _ hs hp he =>
    simp only [Replay.reads?, hs] at hcommit
    subst hcommit
    exact ⟨_, .of_sent S ht ha hc hr hs hp he cancelled⟩
  | lost key ticket push failure _ hs hp =>
    simp only [Replay.Sound, hs] at hr
    exact ⟨_, .of_letGo S ht ha hc (.refl v ticket) (by simp [Replay.ticket?, hs]) hr.1
      (.inr rfl) (S.hub.resume_error hp).1 (hends hs) (by simp) cancelled⟩
  | expire key ticket push hs =>
    simp only [Replay.Sound, hs] at hr
    obtain ⟨hholds, -, -, entry, -, -, hi⟩ := hr
    obtain ⟨moves, ⟨failure, hf⟩, -⟩ := S.hub.expire hi
    rw [hf]
    exact ⟨_, .of_letGo S ht ha hc (.refl v ticket) (by simp [Replay.ticket?, hs]) hholds
      (.inr rfl) moves (hends hs) (by simp) cancelled⟩
  | cancel key ticket push hs =>
    simp only [Replay.Sound, hs] at hr
    exact ⟨_, .of_letGo S ht ha hc (.refl v ticket) (by simp [Replay.ticket?, hs]) hr.1
      (.inr rfl) (S.hub.abandon push) (hends hs) (by simp) cancelled⟩

theorem replay_turn (S : w.Sound) (ht : w.tasks.get? i = some t) (ha : t.activity = .replay r)
    (hc : w.collectors.get? t.kind = some c) (hm : w.moveReplay i t c r m = some w') :
    ∃ r' c' hub commit sent spent, c.ReplayStep w.hub r m r' c' hub sent ∧
      let t' := { t with
        activity := .replay r', commit, cancelled := t.cancelled || r.isCutBy m }
      w' = w.advance i t' c' hub [] ∧ Turn w i t' c c' hub [] sent spent := by
  obtain ⟨d, hd, hr⟩ := S.tasks ht
  rw [hc, Option.some.injEq] at hd
  subst hd
  simp only [Task.Sound, ha] at hr
  obtain ⟨x, hstep, hw⟩ := Option.map_eq_some_iff.1 hm
  obtain ⟨sent, hstep⟩ := Collector.moveReplay_step hstep
  obtain ⟨spent, T⟩ := Turn.of_replayStep S ht ha hc hr hstep rfl (t.cancelled || r.isCutBy m)
  exact ⟨_, _, _, _, _, _, hstep, hw.symm, T⟩

end Replays

end World

end Nodecast
