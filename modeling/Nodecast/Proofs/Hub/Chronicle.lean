import Nodecast.Proofs.Hub.Happenings

/-!
# The life of a stream

A stream is connected from its registration until it is replaced, taken away, dropped or evicted.
Pushes under way may find it and offer their items to it long after that. A record of all that
happened says what entered each stream and what its subscriber received.
-/

namespace Nodecast.Hub

variable {α : Type}

/-- A hub with the pushes that are under way. -/
structure Chronicle (α : Type) where
  hub : Hub α
  /-- Pushes that have found their stream. -/
  calls : Table CallId (Call α) := ∅
  nextCall : Nat := 0
  /-- All that happened, the newest first. No step reads it. -/
  log : List (Happening α) := []

namespace Chronicle

variable {l l' : Chronicle α} {log : List (Happening α)} {x : Happening α} {node n : String}
  {g : Nat} {i : CallId} {c : Call α} {item : α}

/-! ## Steps -/

/-- Somebody holds the subscription of the stream. -/
def listens (l : Chronicle α) (g : Nat) : Bool := (l.hub.unread? g).isSome

def note (l : Chronicle α) (hub : Hub α) (x : Happening α) : Chronicle α :=
  { l with hub, log := x :: l.log }

def begin (l : Chronicle α) (hub : Hub α) (i : CallId) (c : Call α) : Chronicle α :=
  { l.note hub (.began i c) with calls := l.calls.insert i c }

def finish (l : Chronicle α) (i : CallId) (c : Call α) (result : Outcome × Hub α) : Chronicle α :=
  { l.note result.2 (.returned i c result.1) with calls := l.calls.erase i }

inductive Action (α : Type) where
  | register (node : String)
  /-- A subscription is a registration and then an announcement. -/
  | announce (node : String)
  | unregister (node : String)
  | drop (g : Nat)
  /-- The first half of a push. -/
  | push (node : String) (item : α)
  /-- The second half of a push. -/
  | offer (n : Nat)
  | startPaced (node : String) (item : α)
  | resume (ticket : Nat)
  | expire (ticket : Nat)
  | abandon (ticket : Nat)
  | receive (g : Nat)

/-- A subscriber is told that nothing comes any more once nobody can send to its stream. -/
def step (l : Chronicle α) : Action α → Option (Chronicle α)
  | .register node => some (l.note (l.hub.register node).2 (.registered node l.hub.nextGeneration))
  | .announce node => some (l.note (l.hub.notifyJoin node) (.announced node))
  | .unregister node => some (l.note (l.hub.unregister node).2 (.unregistered node))
  | .drop g => if l.listens g then some (l.note (l.hub.drop g) (.dropped g)) else none
  | .push node item =>
    match l.hub.connection? node with
    | none => some (l.note (l.hub.refuse node).2 (.missed node))
    | some (g, _) =>
      some { l.begin l.hub (.atOnce l.nextCall) ⟨node, g, item⟩ with nextCall := l.nextCall + 1 }
  | .offer n =>
    (l.calls.get? (.atOnce n)).map fun c =>
      l.finish (.atOnce n) c (l.hub.offer c.node c.generation c.item)
  | .startPaced node item =>
    match l.hub.startPaced node item with
    | (.error _, hub) => some (l.note hub (.missed node))
    | (.ok r, hub) => some (l.begin hub (.paced r.ticket) ⟨node, r.generation, item⟩)
  | .resume t =>
    (l.calls.get? (.paced t)).bind fun c =>
      (l.hub.resume? ⟨c.generation, t⟩).map fun result => l.finish (.paced t) c result
  | .expire t =>
    (l.calls.get? (.paced t)).bind fun c =>
      if (l.hub.resume? ⟨c.generation, t⟩).isSome then none
      else some (l.finish (.paced t) c (l.hub.expire ⟨c.generation, t⟩))
  | .abandon t =>
    (l.calls.get? (.paced t)).map fun c =>
      { l.note (l.hub.abandon ⟨c.generation, t⟩) (.abandoned (.paced t) c) with
          calls := l.calls.erase (.paced t) }
  | .receive g =>
    if l.listens g then
      match l.hub.receive g with
      | (some item, hub) => some (l.note hub (.received g item))
      | (none, _) =>
        if l.hub.hasEnded g ∧ ∀ c ∈ l.calls.values, c.generation ≠ g then
          some (l.note l.hub (.closed g))
        else none
    else none

def run (l : Chronicle α) : List (Action α) → Option (Chronicle α)
  | [] => some l
  | a :: rest => (l.step a).bind fun l => l.run rest

/-- Every run begins with a hub without streams, of any capacity. -/
def Reachable (l : Chronicle α) : Prop :=
  ∃ config actions, ({ hub := { config } } : Chronicle α).run actions = some l

/-! ## What the record says -/

/-- The last registration of the node is that of the stream, and the stream was not dropped, taken
away or evicted since. -/
def Connected (log : List (Happening α)) (n : String) (g : Nat) : Prop :=
  ∃ since older, log = since ++ .registered n g :: older ∧ ∀ x ∈ since, ¬ x.Ends n g

/-- What entered the stream, the oldest first. -/
def acceptedBy (g : Nat) (log : List (Happening α)) : List α :=
  log.reverse.flatMap fun x => itemsFor g x.sent?

/-- What its subscriber received, the oldest first. -/
def receivedBy (g : Nat) (log : List (Happening α)) : List α :=
  log.reverse.flatMap fun x => itemsFor g x.taken?

theorem connected_cons :
    Connected (x :: log) n g ↔ x = .registered n g ∨ Connected log n g ∧ ¬ x.Ends n g := by
  constructor
  · rintro ⟨since, older, he, hs⟩
    rcases List.cons_eq_append_iff.1 he with ⟨-, hx⟩ | ⟨since', rfl, hlog⟩
    · injection hx with hx
      exact Or.inl hx.symm
    · obtain ⟨hx, hs⟩ := List.forall_mem_cons.1 hs
      exact Or.inr ⟨⟨since', older, hlog, hs⟩, hx⟩
  · rintro (rfl | ⟨⟨since, older, rfl, hs⟩, hx⟩)
    · exact ⟨[], log, rfl, nofun⟩
    · exact ⟨x :: since, older, rfl, List.forall_mem_cons.2 ⟨hx, hs⟩⟩

theorem acceptedBy_cons (g : Nat) (x : Happening α) (log : List (Happening α)) :
    acceptedBy g (x :: log) = acceptedBy g log ++ itemsFor g x.sent? := by
  simp [acceptedBy]

theorem receivedBy_cons (g : Nat) (x : Happening α) (log : List (Happening α)) :
    receivedBy g (x :: log) = receivedBy g log ++ itemsFor g x.taken? := by
  simp [receivedBy]

/-! ## One step -/

/-- The push has been told apart from those before it. -/
def Knows (l : Chronicle α) : CallId → Prop
  | .atOnce n => n < l.nextCall
  | .paced ticket => ticket < l.hub.nextTicket

/-- What has to hold for the happening to come about. -/
def Grounds (l l' : Chronicle α) : Happening α → Prop
  | .began i c =>
    l.hub.slots.get? c.node = some c.generation ∧ ¬ l.Knows i ∧ l'.Knows i ∧
      ∀ t, i = .paced t → l'.hub.item? ⟨c.generation, t⟩ = some c.item
  | .returned i c _ | .abandoned i c => l.calls.get? i = some c
  | .received g item => ∃ rest, l.hub.unread? g = some (item :: rest)
  | .closed g =>
    l.hub.unread? g = some [] ∧ (∀ n, l.hub.slots.get? n ≠ some g) ∧
      ∀ i c, l.calls.get? i = some c → c.generation ≠ g
  | _ => True

def callsAfter (calls : Table CallId (Call α)) : Happening α → Table CallId (Call α)
  | .began i c => calls.insert i c
  | .returned i _ _ | .abandoned i _ => calls.erase i
  | _ => calls

structure Happens (l l' : Chronicle α) (x : Happening α) : Prop where
  log : l'.log = x :: l.log
  follows : Follows l.hub l'.hub x
  calls : l'.calls = callsAfter l.calls x
  nextCall : l.nextCall ≤ l'.nextCall
  grounds : l.Grounds l' x

/-- The subscriber of a stream was told that nothing comes any more. -/
structure Over (l : Chronicle α) (g : Nat) : Prop where
  slot : ∀ n, l.hub.slots.get? n ≠ some g
  call : ∀ i c, l.calls.get? i = some c → c.generation ≠ g
  known : g < l.hub.nextGeneration

structure Valid (l : Chronicle α) : Prop where
  hub : l.hub.Valid
  slots : ∀ n g, l.hub.slots.get? n = some g ↔ Connected l.log n g
  entered : ∀ g, l.hub.logOf g = acceptedBy g l.log
  taken : ∀ g, receivedBy g l.log <+: acceptedBy g l.log
  unread : ∀ g rest, l.hub.unread? g = some rest →
    acceptedBy g l.log = receivedBy g l.log ++ rest
  nodes : ∀ i c, l.calls.get? i = some c → l.hub.nodeOf c.generation = some c.node
  items : ∀ t c, l.calls.get? (.paced t) = some c →
    l.hub.item? ⟨c.generation, t⟩ = some c.item
  begun : ∀ i c, l.calls.get? i = some c → .began i c ∈ l.log
  known : ∀ i c, .began i c ∈ l.log → l.Knows i
  done : ∀ i c outcome, .returned i c outcome ∈ l.log → l.calls.get? i = none
  found : ∀ i c after before, l.log = after ++ .began i c :: before →
    Connected before c.node c.generation
  once : ∀ i c outcome after before, l.log = after ++ .returned i c outcome :: before →
    (∀ c' outcome', .returned i c' outcome' ∉ before) ∧ .began i c ∈ before
  ended : ∀ g, .closed g ∈ l.log → l.Over g
  complete : ∀ g after before, l.log = after ++ .closed g :: before →
    (∀ n, ¬ Connected before n g) ∧ receivedBy g before = acceptedBy g before ∧
      acceptedBy g l.log = acceptedBy g before

theorem valid_new {h : Hub α} (v : h.Valid) (hs : h.streams = ∅) :
    ({ hub := h } : Chronicle α).Valid := by
  have hstream : ∀ g, h.streams.get? g = none := fun g => by rw [hs]; rfl
  have hslot : ∀ n g, h.slots.get? n ≠ some g := by
    intro n g hg
    obtain ⟨s, hstream', -⟩ := v.connected hg
    rw [hstream] at hstream'
    contradiction
  constructor
  case hub => exact v
  case slots =>
    intro n g
    refine ⟨fun hg => absurd hg (hslot n g), ?_⟩
    rintro ⟨since, older, he, -⟩
    simp at he
  case entered => exact fun g => by simp [logOf, hstream, acceptedBy]
  case taken => exact fun _ => List.prefix_rfl
  case unread => exact fun g rest hr => by simp [unread?, hstream] at hr
  case found | once | complete => intros; simp_all
  all_goals intros; contradiction

theorem valid_start (config : Config) : ({ hub := { config } } : Chronicle α).Valid :=
  valid_new (valid_init config) rfl

/-! ## What a step preserves -/

theorem Happens.knows (hx : Happens l l' x) (hi : l.Knows i) : l'.Knows i := by
  cases i with
  | atOnce n => exact Nat.lt_of_lt_of_le hi hx.nextCall
  | paced ticket => exact Nat.lt_of_lt_of_le hi hx.follows.ticket

theorem Happens.call_cases (hx : Happens l l' x) (hc : l'.calls.get? i = some c) :
    x = .began i c ∨
      l.calls.get? i = some c ∧ (∀ c', x ≠ .began i c') ∧
        ∀ c', (∀ outcome, x ≠ .returned i c' outcome) ∧ x ≠ .abandoned i c' := by
  rw [hx.calls] at hc
  cases x with
  | began j d =>
    simp only [callsAfter, Table.get?_insert] at hc
    split at hc
    · next he =>
      cases hc
      exact Or.inl (by rw [he])
    · next hne =>
      refine Or.inr ⟨hc, ?_, by simp⟩
      rintro c' ⟨⟩
      exact hne rfl
  | returned j d outcome =>
    simp only [callsAfter, Table.get?_erase] at hc
    split at hc
    · contradiction
    · next hne =>
      refine Or.inr ⟨hc, by simp, fun c' => ⟨?_, by simp⟩⟩
      rintro _ ⟨⟩
      exact hne rfl
  | abandoned j d =>
    simp only [callsAfter, Table.get?_erase] at hc
    split at hc
    · contradiction
    · next hne =>
      refine Or.inr ⟨hc, by simp, fun c' => ⟨by simp, ?_⟩⟩
      rintro ⟨⟩
      exact hne rfl
  | _ => exact Or.inr ⟨hc, by simp, by simp⟩

namespace Valid

theorem unlogged (v : l.Valid) (hg : l.hub.logOf g = []) : receivedBy g l.log = [] := by
  have hp := v.taken g
  rw [← v.entered, hg] at hp
  exact List.prefix_nil.1 hp

theorem taken_prefix (v : l.Valid) (hx : l.Grounds l' x) (g : Nat) :
    receivedBy g (x :: l.log) <+: acceptedBy g (x :: l.log) := by
  rw [receivedBy_cons, acceptedBy_cons]
  cases x with
  | received g' item =>
    obtain ⟨rest, hrest⟩ := hx
    simp only [Happening.sent?, Happening.taken?, itemsFor_none, itemsFor_some, List.append_nil]
    split
    · next he =>
      rw [← he, v.unread g' _ hrest]
      exact (List.prefix_append_right_inj _).2 ⟨rest, rfl⟩
    · rw [List.append_nil]
      exact v.taken g
  | _ =>
    rw [show itemsFor g (Happening.taken? _) = ([] : List α) from rfl, List.append_nil]
    exact (v.taken g).trans (List.prefix_append _ _)

theorem knows_of_returned {outcome : Outcome} (v : l.Valid) (hi : .returned i c outcome ∈ l.log) :
    l.Knows i := by
  obtain ⟨after, before, he⟩ := List.append_of_mem hi
  refine v.known i c ?_
  rw [he]
  exact List.mem_append_right _ (List.mem_cons_of_mem _ (v.once i c outcome after before he).2)

theorem done_step {outcome : Outcome} (v : l.Valid) (hx : Happens l l' x)
    (hi : .returned i c outcome ∈ l'.log) : l'.calls.get? i = none := by
  rw [hx.log] at hi
  rcases List.mem_cons.1 hi with rfl | hbefore
  · rw [hx.calls]
    exact Table.get?_erase_self _ _
  · rw [Option.eq_none_iff_forall_ne_some]
    intro c' hc'
    rcases hx.call_cases hc' with rfl | ⟨hold, -⟩
    · exact hx.grounds.2.1 (v.knows_of_returned hbefore)
    · rw [v.done i c outcome hbefore] at hold
      contradiction

theorem over_step (v : l.Valid) (hx : Happens l l' x) (hg : .closed g ∈ l'.log) : l'.Over g := by
  have ho : l.Over g := by
    rw [hx.log] at hg
    rcases List.mem_cons.1 hg with rfl | hg
    · obtain ⟨hunread, hslot, hcall⟩ := hx.grounds
      obtain ⟨s, hs, -⟩ := Option.bind_eq_some_iff.1 hunread
      exact ⟨hslot, hcall, v.hub.known hs⟩
    · exact v.ended g hg
  refine ⟨fun n hn => ho.slot n (hx.follows.slot ho.known hn), ?_,
    Nat.lt_of_lt_of_le ho.known hx.follows.generation⟩
  intro i c hc
  rcases hx.call_cases hc with rfl | ⟨hold, -⟩
  · rintro rfl
    exact ho.slot _ hx.grounds.1
  · exact ho.call i c hold

/-- Nothing enters a stream once its subscriber was told that nothing comes any more. -/
theorem sent_of_over (ho : l.Over g) (hx : l.Grounds l' x) : itemsFor g x.sent? = [] := by
  cases x with
  | returned i c outcome =>
    cases outcome with
    | ok => exact (itemsFor_some g c.generation c.item).trans (if_neg (ho.call i c hx))
    | error e => rfl
  | _ => rfl

theorem complete_step (v : l.Valid) (hx : Happens l l' x) {after before : List (Happening α)}
    (he : x :: l.log = after ++ .closed g :: before) :
    (∀ n, ¬ Connected before n g) ∧ receivedBy g before = acceptedBy g before ∧
      acceptedBy g (x :: l.log) = acceptedBy g before := by
  rw [acceptedBy_cons]
  rcases List.cons_eq_append_iff.1 he with ⟨-, he⟩ | ⟨after', rfl, hlog⟩
  · injection he with he hlog
    subst he
    obtain ⟨hunread, hslot, -⟩ := hx.grounds
    rw [hlog]
    refine ⟨fun n hn => hslot n ((v.slots n g).2 hn), ?_, List.append_nil _⟩
    rw [v.unread g [] hunread, List.append_nil]
  · have hmem : .closed g ∈ l.log := by
      rw [hlog]
      exact List.mem_append_right _ List.mem_cons_self
    rw [sent_of_over (v.ended g hmem) hx.grounds, List.append_nil]
    exact v.complete g after' before hlog

theorem spent_ne {t : Nat} (hother : ∀ c', (∀ outcome, x ≠ .returned (.paced t) c' outcome) ∧
    x ≠ .abandoned (.paced t) c') (g : Nat) : x.spent? ≠ some ⟨g, t⟩ := by
  intro hs
  cases x with
  | returned j d outcome =>
    cases j with
    | atOnce n => contradiction
    | paced t' =>
      cases hs
      exact (hother d).1 outcome rfl
  | abandoned j d =>
    cases j with
    | atOnce n => contradiction
    | paced t' =>
      cases hs
      exact (hother d).2 rfl
  | _ => contradiction

theorem happens (v : l.Valid) (hx : Happens l l' x) : l'.Valid where
  hub := hx.follows.valid
  slots := by
    intro n g
    rw [hx.log, connected_cons, ← v.slots]
    exact hx.follows.slot_iff n g
  entered := by
    intro g
    rw [hx.log, acceptedBy_cons, ← v.entered]
    exact hx.follows.log g
  taken := by
    intro g
    rw [hx.log]
    exact v.taken_prefix hx.grounds g
  unread := by
    intro g rest hr
    rw [hx.log, acceptedBy_cons, receivedBy_cons]
    rcases hx.follows.unread g rest hr with ⟨⟨n, rfl⟩, hnone, rfl⟩ | ⟨before, hbefore, he⟩
    · rw [v.unlogged hnone, ← v.entered, hnone]
      rfl
    · rw [v.unread g before hbefore, List.append_assoc, he, List.append_assoc]
  nodes := by
    intro i c hc
    rcases hx.call_cases hc with rfl | ⟨hold, -⟩
    · obtain ⟨s, hs, hn, -⟩ := v.hub.connected hx.grounds.1
      exact hx.follows.node (nodeOf_eq_some.2 ⟨s, hs, hn⟩)
    · exact hx.follows.node (v.nodes i c hold)
  items := by
    intro t c hc
    rcases hx.call_cases hc with rfl | ⟨hold, -, hother⟩
    · exact hx.grounds.2.2.2 t rfl
    · exact hx.follows.item (spent_ne hother _) (v.items t c hold)
  begun := by
    intro i c hc
    rw [hx.log]
    rcases hx.call_cases hc with rfl | ⟨hold, -⟩
    · exact List.mem_cons_self
    · exact List.mem_cons_of_mem _ (v.begun i c hold)
  known := by
    intro i c hi
    rw [hx.log] at hi
    rcases List.mem_cons.1 hi with rfl | hi
    · exact hx.grounds.2.2.1
    · exact hx.knows (v.known i c hi)
  done := fun _ _ _ hi => v.done_step hx hi
  found := by
    intro i c after before he
    rw [hx.log] at he
    rcases List.cons_eq_append_iff.1 he with ⟨-, he⟩ | ⟨after', rfl, hlog⟩
    · injection he with he hlog
      subst he
      rw [hlog]
      exact (v.slots _ _).1 hx.grounds.1
    · exact v.found i c after' before hlog
  once := by
    intro i c outcome after before he
    rw [hx.log] at he
    rcases List.cons_eq_append_iff.1 he with ⟨-, he⟩ | ⟨after', rfl, hlog⟩
    · injection he with he hlog
      subst he
      rw [hlog]
      refine ⟨fun c' outcome' hin => ?_, v.begun i c hx.grounds⟩
      have hc : l.calls.get? i = some c := hx.grounds
      rw [v.done i c' outcome' hin] at hc
      contradiction
    · exact v.once i c outcome after' before hlog
  ended := fun _ hg => v.over_step hx hg
  complete := by
    intro g after before he
    rw [hx.log] at he ⊢
    exact v.complete_step hx he

/-! ## Every step is a happening -/

theorem mem_calls (hc : l.calls.get? i = some c) : c ∈ l.calls.values :=
  Table.mem_values_iff.2 ⟨i, hc⟩

theorem step_push (v : l.Valid) (hs : l.step (.push node item) = some l') :
    ∃ x, Happens l l' x := by
  simp only [Chronicle.step] at hs
  cases hc : l.hub.connection? node with
  | none =>
    rw [hc] at hs
    cases hs
    exact ⟨_, rfl, v.hub.follows_miss node, rfl, Nat.le_refl _, trivial⟩
  | some p =>
    obtain ⟨g, s⟩ := p
    rw [hc] at hs
    cases hs
    exact ⟨_, rfl, v.hub.follows_begin _ _, rfl, Nat.le_succ _, (connection?_eq_some.1 hc).1,
      Nat.lt_irrefl _, Nat.lt_succ_self _, nofun⟩

theorem step_startPaced (v : l.Valid) (hs : l.step (.startPaced node item) = some l') :
    ∃ x, Happens l l' x := by
  simp only [Chronicle.step] at hs
  split at hs
  · next e hub hp =>
    cases hs
    have hmiss : hub = (l.hub.refuse node).2 := by
      unfold Hub.startPaced at hp
      split at hp <;> cases hp
      rfl
    rw [hmiss]
    exact ⟨_, rfl, v.hub.follows_miss node, rfl, Nat.le_refl _, trivial⟩
  · next r hub hp =>
    cases hs
    obtain ⟨m, hslot, -, hticket, hitem⟩ := v.hub.startPaced_ok hp
    refine ⟨_, rfl, v.hub.follows_startPaced hp _, rfl, Nat.le_refl _, hslot, ?_,
      m.valid.item?_lt hitem, ?_⟩
    · exact fun hlt => Nat.lt_irrefl _ (hticket ▸ hlt)
    · rintro _ ⟨⟩
      exact hitem

theorem step_receive (v : l.Valid) (hs : l.step (.receive g) = some l') :
    ∃ x, Happens l l' x := by
  obtain ⟨hl, hs⟩ := Option.ite_none_right_eq_some.1 hs
  obtain ⟨rest, hrest⟩ := Option.isSome_iff_exists.1 hl
  obtain ⟨s, hstream, hunread⟩ := Option.bind_eq_some_iff.1 hrest
  have hbuffer : s.buffer = rest := by
    unfold Stream.unread? at hunread
    split at hunread
    · exact Option.some.inj hunread
    · contradiction
  split at hs
  · next item hub hr =>
    cases hs
    obtain ⟨s', rest', hs', hb, -⟩ := receive_eq_some hr
    rw [hstream, Option.some.injEq] at hs'
    subst hs'
    exact ⟨_, rfl, v.hub.follows_receive hr, rfl, Nat.le_refl _, rest', by
      rw [hrest, ← hbuffer, hb]⟩
  · obtain ⟨⟨hended, hcalls⟩, hs⟩ := Option.ite_none_right_eq_some.1 hs
    cases hs
    simp only [hasEnded, hstream, Bool.and_eq_true, List.isEmpty_iff, decide_eq_true_eq] at hended
    refine ⟨_, rfl, v.hub.follows_closed g, rfl, Nat.le_refl _, ?_, fun n hn => ?_,
      fun i c hc => hcalls c (mem_calls hc)⟩
    · rw [hrest, ← hbuffer, hended.1.1]
    · rw [← (v.hub.listens hn hstream).1] at hn
      exact hended.2 hn

theorem step (v : l.Valid) {a : Action α} (hs : l.step a = some l') : ∃ x, Happens l l' x := by
  cases a with
  | register node =>
    cases hs
    exact ⟨_, rfl, v.hub.follows_register node, rfl, Nat.le_refl _, trivial⟩
  | announce node =>
    cases hs
    exact ⟨_, rfl, v.hub.follows_announce node, rfl, Nat.le_refl _, trivial⟩
  | unregister node =>
    cases hs
    exact ⟨_, rfl, v.hub.follows_unregister node, rfl, Nat.le_refl _, trivial⟩
  | drop g =>
    obtain ⟨hl, hs⟩ := Option.ite_none_right_eq_some.1 hs
    cases hs
    obtain ⟨rest, hrest⟩ := Option.isSome_iff_exists.1 hl
    obtain ⟨s, hstream, -⟩ := Option.bind_eq_some_iff.1 hrest
    exact ⟨_, rfl, v.hub.follows_drop hstream, rfl, Nat.le_refl _, trivial⟩
  | push node item => exact v.step_push hs
  | offer n =>
    obtain ⟨c, hc, rfl⟩ := Option.map_eq_some_iff.1 hs
    exact ⟨_, rfl, v.hub.follows_offer (v.nodes _ c hc) n rfl, rfl, Nat.le_refl _, hc⟩
  | startPaced node item => exact v.step_startPaced hs
  | resume t =>
    obtain ⟨c, hc, hs⟩ := Option.bind_eq_some_iff.1 hs
    obtain ⟨result, hr, rfl⟩ := Option.map_eq_some_iff.1 hs
    exact ⟨_, rfl, v.hub.follows_resume (v.items t c hc) (v.nodes _ c hc) hr, rfl, Nat.le_refl _,
      hc⟩
  | expire t =>
    obtain ⟨c, hc, hs⟩ := Option.bind_eq_some_iff.1 hs
    obtain ⟨-, hs⟩ := Option.ite_none_left_eq_some.1 hs
    cases hs
    exact ⟨_, rfl, v.hub.follows_expire (v.items t c hc) (v.nodes _ c hc), rfl, Nat.le_refl _, hc⟩
  | abandon t =>
    obtain ⟨c, hc, rfl⟩ := Option.map_eq_some_iff.1 hs
    exact ⟨_, rfl, v.hub.follows_abandon t c, rfl, Nat.le_refl _, hc⟩
  | receive g => exact v.step_receive hs

theorem run (v : l.Valid) {actions : List (Action α)} (hs : l.run actions = some l') :
    l'.Valid := by
  induction actions generalizing l with
  | nil =>
    cases hs
    exact v
  | cons a rest ih =>
    obtain ⟨l1, h1, hrest⟩ := Option.bind_eq_some_iff.1 hs
    obtain ⟨x, hx⟩ := v.step h1
    exact ih (v.happens hx) hrest

end Valid

theorem Reachable.valid (hr : l.Reachable) : l.Valid := by
  obtain ⟨config, actions, hrun⟩ := hr
  exact (valid_start config).run hrun

end Chronicle

end Nodecast.Hub
