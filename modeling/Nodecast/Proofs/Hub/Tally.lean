import Nodecast.Proofs.Hub.Pacing
import Nodecast.Proofs.Sums

/-!
# What the counters count

A push that is over has delivered its item, or its node was not connected, or its queue was full.
The counters of the streams and of the hub count each push once, under what came of it.
-/

namespace Nodecast.Hub

variable {α : Type} {h h' : Hub α} {node : String} {g : Nat} {s s' : Stream α} {item : α}
  {r : PacedRef}

/-! ## Tallies -/

/-- How many pushes came to each end. -/
structure Tally where
  delivered : Nat := 0
  notConnected : Nat := 0
  queueFull : Nat := 0
deriving DecidableEq, Repr

def Tally.total (t : Tally) : Nat := t.delivered + t.notConnected + t.queueFull

/-- The streams count what they delivered, the hub counts the rest. -/
def tally (h : Hub α) : Tally where
  delivered := h.streams.weigh fun s => s.stats.delivered
  notConnected := h.stats.droppedNotConnected
  queueFull := h.stats.droppedQueueFull

/-- What a push returned is counted once, and nothing else is. -/
inductive Counted (h h' : Hub α) : Option Outcome → Prop where
  | nothing (ht : h'.tally = h.tally) : Counted h h' none
  | delivered (ht : h'.tally = { h.tally with delivered := h.tally.delivered + 1 }) :
      Counted h h' (some (.ok ()))
  | notConnected (node : String)
      (ht : h'.tally = { h.tally with notConnected := h.tally.notConnected + 1 }) :
      Counted h h' (some (.error (.notConnected node)))
  | queueFull (node : String) (capacity : Nat)
      (ht : h'.tally = { h.tally with queueFull := h.tally.queueFull + 1 }) :
      Counted h h' (some (.error (.queueFull node capacity)))

def isDelivered : Outcome → Bool
  | .ok () => true
  | .error _ => false

def isNotConnected : Outcome → Bool
  | .error (.notConnected _) => true
  | _ => false

def isQueueFull : Outcome → Bool
  | .error (.queueFull ..) => true
  | _ => false

def Tally.of (outcomes : List Outcome) : Tally where
  delivered := outcomes.countP isDelivered
  notConnected := outcomes.countP isNotConnected
  queueFull := outcomes.countP isQueueFull

theorem Tally.of_concat (outcomes : List Outcome) (outcome : Outcome) :
    Tally.of (outcomes ++ [outcome]) =
      ⟨(of outcomes).delivered + if isDelivered outcome then 1 else 0,
        (of outcomes).notConnected + if isNotConnected outcome then 1 else 0,
        (of outcomes).queueFull + if isQueueFull outcome then 1 else 0⟩ := by
  simp [of, List.countP_append, List.countP_singleton]

theorem Counted.tally_eq {x : Option Outcome} {outcomes : List Outcome} (hc : Counted h h' x)
    (ht : h.tally = .of outcomes) : h'.tally = .of (outcomes ++ x.toList) := by
  rcases hc with hn | hd | ⟨_, hd⟩ | ⟨_, _, hd⟩
  · rw [hn, ht, Option.toList_none, List.append_nil]
  all_goals
    rw [hd, ht, Option.toList_some, Tally.of_concat]
    rfl

theorem Counted.total_eq {x : Option Outcome} (hc : Counted h h' x) :
    h'.tally.total = h.tally.total + x.toList.length := by
  rcases hc with hn | hd | ⟨_, hd⟩ | ⟨_, _, hd⟩
  · rw [hn]
    rfl
  all_goals
    rw [hd]
    simp only [Tally.total, Option.toList_some, List.length_singleton]
    omega

/-! ## Steps of the hub -/

theorem tally_disconnect (h : Hub α) (node : String) (g : Nat) :
    (h.disconnect node g).tally = h.tally := by
  unfold disconnect
  split <;> rfl

theorem tally_setStream (hs : h.streams.get? g = some s) (s' : Stream α) :
    (h.setStream g s').tally.delivered + s.delivered = h.tally.delivered + s'.delivered :=
  Table.weigh_replace (fun s => s.stats.delivered) s' hs

theorem tally_setStream_same (hs : h.streams.get? g = some s) (hsame : s'.delivered = s.delivered) :
    (h.setStream g s').tally = h.tally := by
  have hd := tally_setStream hs s'
  rw [hsame] at hd
  show Tally.mk (h.setStream g s').tally.delivered _ _ = _
  rw [Nat.add_right_cancel hd]
  rfl

theorem counted_sent (hs : h.streams.get? g = some s) (hmore : s'.delivered = s.delivered + 1) :
    Counted h (h.setStream g s') (some (.ok ())) := by
  refine .delivered ?_
  have hd := tally_setStream hs s'
  rw [hmore] at hd
  show Tally.mk (h.setStream g s').tally.delivered _ _ = _
  rw [show (h.setStream g s').tally.delivered = h.tally.delivered + 1 by omega]
  rfl

theorem Valid.counted_register (v : h.Valid) (node : String) :
    Counted h (h.register node).2 none := by
  have hnew : h.streams.get? h.nextGeneration = none := by
    rw [Option.eq_none_iff_forall_ne_some]
    intro s hs
    exact absurd (v.known hs) (Nat.lt_irrefl _)
  refine .nothing ?_
  unfold tally Hub.register
  simp only [Table.weigh_insert_new _ _ hnew]
  show Tally.mk (0 + _) _ _ = _
  rw [Nat.zero_add]
  rfl

theorem counted_drop (h : Hub α) (g : Nat) : Counted h (h.drop g) none := by
  refine .nothing ?_
  unfold Hub.drop
  split
  · rfl
  · next s hs =>
    rw [tally_disconnect]
    exact tally_setStream_same hs rfl

theorem counted_refuse (h : Hub α) (node : String) :
    Counted h (h.refuse node).2 (some (.error (.notConnected node))) := .notConnected node rfl

theorem counted_offer (h : Hub α) (node : String) (g : Nat) (item : α) :
    Counted h (h.offer node g item).2 (some (h.offer node g item).1) := by
  generalize ho : h.offer node g item = x
  have hoffered := offered h node g item
  rw [ho] at hoffered
  obtain ⟨outcome, h'⟩ := x
  cases hoffered with
  | accepted hs => exact counted_sent hs rfl
  | evicted => exact .queueFull _ _ (tally_disconnect _ _ _)
  | closed => exact .notConnected _ (tally_disconnect _ _ _)

theorem counted_reserve (hs : h.streams.get? g = some s) (item : α) :
    Counted h (h.reserve g item).2 none := by
  rw [reserve_eq hs]
  exact .nothing (tally_setStream_same hs rfl)

theorem counted_parted (hs : h.streams.get? r.generation = some s) :
    (h.parted r s).tally = h.tally := by
  unfold parted
  rw [tally_disconnect]
  exact tally_setStream_same hs rfl

theorem counted_resume {outcome : Outcome} (hr : h.resume? r = some (outcome, h')) :
    Counted h h' (some outcome) := by
  obtain ⟨s, hs, -⟩ := Option.bind_eq_some_iff.1 hr
  cases resumed hs hr with
  | sent p => exact counted_sent hs rfl
  | unheard => exact .notConnected _ (counted_parted hs)

theorem counted_expire (hs : h.streams.get? r.generation = some s) :
    Counted h (h.expire r).2 (some (h.expire r).1) := by
  rw [expire_eq hs]
  exact .queueFull _ _ (counted_parted hs)

theorem counted_abandon (h : Hub α) (r : PacedRef) : Counted h (h.abandon r) none := by
  refine .nothing ?_
  unfold Hub.abandon
  split
  · rfl
  · next s hs => exact tally_setStream_same hs rfl

theorem counted_receive (h : Hub α) (g : Nat) : Counted h (h.receive g).2 none := by
  refine .nothing ?_
  unfold Hub.receive
  split
  · rfl
  · next s hs =>
    refine tally_setStream_same hs ?_
    unfold Stream.receive
    split <;> rfl

end Nodecast.Hub
