import Nodecast.Proofs.Hub.Chronicle
import Nodecast.Proofs.Http.Messages

/-!
# What a node is served

While a node's stream is open, pushes and all else at the hub go on between the moments at which
the stream sends what it has. The node gets the events that were queued for it, whole and in order.
-/

namespace Nodecast.Hub

variable {α : Type} {h h' : Hub α} {g : Nat} {item : α} {rest : List α}

theorem unread?_eq_some (hr : h.unread? g = some rest) :
    ∃ s, h.streams.get? g = some s ∧ s.listening = true ∧ s.buffer = rest := by
  obtain ⟨s, hs, hunread⟩ := Option.bind_eq_some_iff.1 hr
  obtain ⟨hl, hbuffer⟩ := Option.ite_none_right_eq_some.1 hunread
  exact ⟨s, hs, hl, Option.some.inj hbuffer⟩

theorem receive_unread (hr : h.unread? g = some (item :: rest)) :
    ∃ h', h.receive g = (some item, h') ∧ h'.unread? g = some rest := by
  obtain ⟨s, hs, hl, hbuffer⟩ := unread?_eq_some hr
  have hleft : s.log.drop (s.taken + 1) = rest := by
    rw [← List.tail_drop]
    exact congrArg List.tail hbuffer
  have hreceive : h.receive g =
      (some item, h.setStream g (Stream.dealFree { s with taken := s.taken + 1 })) := by
    unfold Hub.receive Stream.receive
    simp only [hs, hbuffer]
  refine ⟨_, hreceive, ?_⟩
  rw [unread?_setStream, if_pos rfl]
  show (if s.listening then some (s.log.drop (s.taken + 1)) else none) = _
  rw [if_pos hl, hleft]

theorem drain_eq (hr : h.unread? g = some rest) :
    h.drain g = (rest, rest.foldl (fun h _ => (h.receive g).2) h) := by
  obtain ⟨s, hs, -, hbuffer⟩ := unread?_eq_some hr
  unfold drain
  simp only [hs, hbuffer]

namespace Chronicle

variable {l l' : Chronicle α} {a : Action α}

/-- All that is left in the stream is received. -/
def drained (l : Chronicle α) (g : Nat) : Chronicle α :=
  { l with
    hub := (l.hub.drain g).2
    log := ((l.hub.drain g).1.map (.received g)).reverse ++ l.log }

theorem run_receives (hr : l.hub.unread? g = some rest) :
    l.run (List.replicate rest.length (.receive g)) = some (l.drained g) ∧
      (l.drained g).hub.unread? g = some [] := by
  induction rest generalizing l with
  | nil =>
    simp [drained, drain_eq hr, hr, run]
  | cons item rest ih =>
    obtain ⟨h', hreceive, hleft⟩ := receive_unread hr
    have hstep : l.step (.receive g) = some (l.note h' (.received g item)) := by
      unfold step listens
      simp only [hr, hreceive, Option.isSome_some, if_true]
    have hdrained : (l.note h' (.received g item)).drained g = l.drained g := by
      unfold drained note
      simp [drain_eq hr, drain_eq hleft, hreceive]
    have hrest := ih (l := l.note h' (.received g item)) hleft
    rw [hdrained] at hrest
    refine ⟨?_, hrest.2⟩
    rw [List.length_cons, List.replicate_succ, run, hstep]
    exact hrest.1

theorem receivedBy_drained (l : Chronicle α) (g : Nat) :
    receivedBy g (l.drained g).log = receivedBy g l.log ++ (l.hub.drain g).1 := by
  have hall : ∀ items : List α,
      (items.map (Happening.received g)).flatMap (fun x => itemsFor g x.taken?) = items := by
    intro items
    rw [List.flatMap_map]
    simp [Happening.taken?, itemsFor_some]
  unfold receivedBy drained
  rw [List.reverse_append, List.reverse_reverse, List.flatMap_append, hall]

theorem receivedBy_step (hs : l.step a = some l') (ha : a ≠ .receive g) :
    receivedBy g l'.log = receivedBy g l.log := by
  have other : ∀ x : Happening α, itemsFor g x.taken? = [] →
      receivedBy g (x :: l.log) = receivedBy g l.log := by
    intro x hx
    rw [receivedBy_cons, hx, List.append_nil]
  cases a with
  | receive g' =>
    have hne : g' ≠ g := fun e => ha (by rw [e])
    obtain ⟨-, hs⟩ := Option.ite_none_right_eq_some.1 hs
    split at hs
    · cases hs
      apply other
      rw [Happening.taken?, itemsFor_some, if_neg hne]
    · obtain ⟨-, hs⟩ := Option.ite_none_right_eq_some.1 hs
      cases hs
      exact other _ rfl
  | register _ | announce _ | unregister _ =>
    cases hs
    exact other _ rfl
  | drop _ =>
    obtain ⟨-, hs⟩ := Option.ite_none_right_eq_some.1 hs
    cases hs
    exact other _ rfl
  | push _ _ | startPaced _ _ =>
    simp only [Chronicle.step] at hs
    split at hs <;> cases hs <;> exact other _ rfl
  | offer _ | abandon _ =>
    obtain ⟨c, -, rfl⟩ := Option.map_eq_some_iff.1 hs
    exact other _ rfl
  | resume _ =>
    obtain ⟨c, -, hs⟩ := Option.bind_eq_some_iff.1 hs
    obtain ⟨result, -, rfl⟩ := Option.map_eq_some_iff.1 hs
    exact other _ rfl
  | expire _ =>
    obtain ⟨c, -, hs⟩ := Option.bind_eq_some_iff.1 hs
    obtain ⟨-, hs⟩ := Option.ite_none_left_eq_some.1 hs
    cases hs
    exact other _ rfl

end Chronicle

end Nodecast.Hub

namespace Nodecast.Http

open Hub (Chronicle)
open Hub.Chronicle (Action receivedBy acceptedBy)

/-- What a stream sends is its events, and some comments behind them. -/
theorem EventStream.read_spec (s : EventStream) (h : Hub Event) (now : Nat) :
    ∃ n comments ended, s.read h now =
      (((h.drain s.generation).1.flatMap eventMessage ++
          (List.replicate n keepAliveComment).flatten, ended),
        { s with comments }, (h.drain s.generation).2) := by
  unfold read
  simp only
  split
  · refine ⟨0, s.comments, true, ?_⟩
    rw [List.replicate_zero, List.flatten_nil, List.append_nil]
  · exact ⟨_, _, false, rfl⟩

/-- An open response, and the hub it is served from. -/
structure Session where
  chronicle : Chronicle Event
  stream : EventStream
  /-- All that was sent. -/
  sent : List Char := []

namespace Session

variable {s s' : Session} {l : Chronicle Event} {node : String} {now : Nat}

/-- The stream of a node is registered just now. -/
def start (l : Chronicle Event) (node : String) (now : Nat) : Session where
  chronicle := l.note (l.hub.register node).2 (.registered node l.hub.nextGeneration)
  stream := { generation := l.hub.nextGeneration, opened := now }

inductive Step where
  /-- Anything else at the hub. -/
  | meanwhile (a : Action Event)
  /-- The stream sends what it has. -/
  | read (now : Nat)

def takesFrom (g : Nat) : Action Event → Bool
  | .receive g' => g' = g
  | _ => false

/-- Nobody else takes from the stream. It is read as long as its subscription is held. -/
def step (s : Session) : Step → Option Session
  | .meanwhile a =>
    if takesFrom s.stream.generation a then none
    else (s.chronicle.step a).map fun chronicle => { s with chronicle }
  | .read now =>
    if s.chronicle.listens s.stream.generation then
      let ((text, _), stream, hub) := s.stream.read s.chronicle.hub now
      some { chronicle := { s.chronicle.drained s.stream.generation with hub }, stream
             sent := s.sent ++ text }
    else none

def run (s : Session) : List Step → Option Session
  | [] => some s
  | x :: rest => (s.step x).bind fun s => s.run rest

def Reachable (s : Session) : Prop :=
  ∃ l node now steps, l.Reachable ∧ (start l node now).run steps = some s

/-- The events queued on the stream so far. -/
def queued (s : Session) : List Event := acceptedBy s.stream.generation s.chronicle.log

/-- The events taken from it. -/
def taken (s : Session) : List Event := receivedBy s.stream.generation s.chronicle.log

/-- What the node makes of all that was sent. -/
def received (s : Session) : List (Except Json.Fault Event) :=
  (Sse.read s.sent).map Event.decode

/-! ## What a session keeps to -/

structure Valid (s : Session) : Prop where
  chronicle : s.chronicle.Valid
  sent : Sse.Yields s.sent (s.taken.map Event.encode)

theorem valid_start (v : l.Valid) (node : String) (now : Nat) : (start l node now).Valid := by
  have hstep : l.step (.register node) = some (start l node now).chronicle := rfl
  obtain ⟨x, hx⟩ := v.step hstep
  have hnew := v.happens hx
  have hempty : (start l node now).taken = [] := by
    apply hnew.unlogged
    simp [start, Chronicle.note, Hub.register, Hub.logOf]
  refine ⟨hnew, ?_⟩
  rw [hempty]
  exact Sse.yields_nil

theorem Valid.step_meanwhile {a : Action Event} (v : s.Valid)
    (hs : s.step (.meanwhile a) = some s') : s'.Valid := by
  obtain ⟨hother, hs⟩ := Option.ite_none_left_eq_some.1 hs
  obtain ⟨chronicle, hstep, rfl⟩ := Option.map_eq_some_iff.1 hs
  have ha : a ≠ .receive s.stream.generation := by
    rintro rfl
    exact hother (decide_eq_true rfl)
  have htaken : receivedBy s.stream.generation chronicle.log = s.taken :=
    Chronicle.receivedBy_step hstep ha
  obtain ⟨x, hx⟩ := v.chronicle.step hstep
  refine ⟨v.chronicle.happens hx, ?_⟩
  show Sse.Yields s.sent ((receivedBy s.stream.generation chronicle.log).map Event.encode)
  rw [htaken]
  exact v.sent

theorem Valid.step_read {rest : List Event} (v : s.Valid)
    (hr : s.chronicle.hub.unread? s.stream.generation = some rest) (now : Nat) :
    ∃ s', s.step (.read now) = some s' ∧ s'.Valid ∧ s'.taken = s.queued := by
  obtain ⟨n, comments, ended, hread⟩ := s.stream.read_spec s.chronicle.hub now
  obtain ⟨hrun, -⟩ := Chronicle.run_receives hr
  have hl : s.chronicle.listens s.stream.generation = true := by
    unfold Chronicle.listens
    rw [hr]
    rfl
  have hdrained : (s.chronicle.hub.drain s.stream.generation).1 = rest := by
    rw [Hub.drain_eq hr]
  have htaken : receivedBy s.stream.generation (s.chronicle.drained s.stream.generation).log =
      s.taken ++ rest := by
    rw [Chronicle.receivedBy_drained, hdrained]
    rfl
  refine ⟨_, by rw [step, if_pos hl, hread], ⟨v.chronicle.run hrun, ?_⟩, ?_⟩
  · show Sse.Yields _
      ((receivedBy _ (s.chronicle.drained s.stream.generation).log).map Event.encode)
    rw [htaken, List.map_append, hdrained]
    have hcomments := (yields_events rest).append (Sse.yields_comments n)
    rw [List.append_nil] at hcomments
    exact v.sent.append hcomments
  · show receivedBy _ (s.chronicle.drained s.stream.generation).log = _
    rw [htaken]
    exact (v.chronicle.unread _ _ hr).symm

theorem Valid.step {x : Step} (v : s.Valid) (hs : s.step x = some s') : s'.Valid := by
  cases x with
  | meanwhile a => exact v.step_meanwhile hs
  | read now =>
    obtain ⟨hl, -⟩ := Option.ite_none_right_eq_some.1 hs
    obtain ⟨rest, hr⟩ := Option.isSome_iff_exists.1 hl
    obtain ⟨s1, h1, v1, -⟩ := v.step_read hr now
    rw [h1, Option.some.injEq] at hs
    rwa [← hs]

theorem Valid.run {steps : List Step} (v : s.Valid) (hs : s.run steps = some s') : s'.Valid := by
  induction steps generalizing s with
  | nil =>
    cases hs
    exact v
  | cons x rest ih =>
    obtain ⟨s1, h1, hrest⟩ := Option.bind_eq_some_iff.1 hs
    exact ih (v.step h1) hrest

theorem Reachable.valid (hr : s.Reachable) : s.Valid := by
  obtain ⟨l, node, now, steps, hl, hrun⟩ := hr
  exact (valid_start hl.valid node now).run hrun

/-! ## What the node gets -/

theorem Valid.texts_eq (v : s.Valid) : Sse.read s.sent = s.taken.map Event.encode := v.sent.read_eq

theorem Valid.received_eq (v : s.Valid) : s.received = s.taken.map .ok := by
  unfold received
  rw [v.texts_eq, List.map_map]
  exact List.map_congr_left fun e _ => e.decode_encode

/-- Every event is one data line without control characters. The texts that the node reads are those
of the events queued for it, as far as they are sent, and it decodes them to the same events. As
long as the subscription is held, the next read sends all that is queued. -/
theorem Reachable.served_intact (hr : s.Reachable) :
    (∀ e ∈ s.queued, (∀ c ∈ e.encode.toList, 0x20 ≤ c.toNat) ∧
      eventMessage e = "data: ".toList ++ e.encode.toList ++ ['\n', '\n']) ∧
    Sse.read s.sent <+: s.queued.map Event.encode ∧
    s.received <+: s.queued.map .ok ∧
    (s.chronicle.listens s.stream.generation = true → ∀ now, ∃ s',
      s.step (.read now) = some s' ∧ Sse.read s'.sent = s.queued.map Event.encode ∧
        s'.received = s.queued.map .ok) := by
  have v := hr.valid
  have hprefix : s.taken <+: s.queued := v.chronicle.taken s.stream.generation
  refine ⟨?_, ?_, ?_, ?_⟩
  · intro e _
    exact ⟨fun c => Event.le_of_mem_encode, eventMessage_eq e⟩
  · rw [v.texts_eq]
    exact hprefix.map _
  · rw [v.received_eq]
    exact hprefix.map _
  · intro hl now
    obtain ⟨rest, hrest⟩ := Option.isSome_iff_exists.1 hl
    obtain ⟨s', hs, v', htaken⟩ := v.step_read hrest now
    refine ⟨s', hs, ?_, ?_⟩
    · rw [v'.texts_eq, htaken]
    · rw [v'.received_eq, htaken]

/-- A deletion without payload, and an addition whose payload is empty. -/
def oddEvents : List Event :=
  [⟨.deleted, .pod, "\"\\", "a\nb", "\r\t", "n", none⟩,
    ⟨.added, .pod, "\u0000", "", "é", "n", some ""⟩]

/-- Both are pushed, with a read between them. -/
def oddSteps : List Step :=
  (oddEvents.take 1).map (fun e => .meanwhile (.push "n" e)) ++ [.meanwhile (.offer 0), .read 5] ++
    (oddEvents.drop 1).map (fun e => .meanwhile (.push "n" e)) ++ [.meanwhile (.offer 1)]

theorem served_intact_odd :
    ∃ s, (start { hub := { config := {} } } "n" 0).run oddSteps = some s ∧ s.queued = oddEvents ∧
      ∀ now, ∃ s', s.step (.read now) = some s' ∧ s'.received = oddEvents.map .ok := by
  have hrun : ∃ s, (start { hub := { config := {} } } "n" 0).run oddSteps = some s ∧
      s.queued = oddEvents ∧ s.chronicle.listens s.stream.generation = true :=
    ⟨_, rfl, rfl, rfl⟩
  obtain ⟨s, hs, hqueued, hl⟩ := hrun
  have hr : s.Reachable := ⟨_, "n", 0, oddSteps, ⟨{}, [], rfl⟩, hs⟩
  obtain ⟨-, -, -, hserved⟩ := hr.served_intact
  refine ⟨s, hs, hqueued, fun now => ?_⟩
  obtain ⟨s', hstep, -, hreceived⟩ := hserved hl now
  exact ⟨s', hstep, by rw [hreceived, hqueued]⟩

end Session

end Nodecast.Http
