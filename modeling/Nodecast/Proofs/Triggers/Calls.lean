import Nodecast.Proofs.Queues
import Nodecast.Proofs.Triggers.Changes

/-!
# Calls of watch handlers

The handler of a watch is called for one notice after the other. Calls of different handlers go on
side by side: between any two steps of one there may be steps of others, and of workers.
-/

namespace Nodecast

structure Call where
  notice : Notice
  /-- What is still to be done. -/
  rest : List Reaction

structure Lookout extends Daemon where
  /-- The calls under way, at most one for a watch. -/
  calls : Table Kind Call := ∅

variable {who : Census} {kind k : Kind} {key : Key} {d : Daemon} {r x : Reaction}
  {rs rest : List Reaction} {n : Notice}

namespace Lookout

variable {w w' : Lookout}

/-! ## Steps -/

/-- A call with nothing left to do is over. -/
def proceed (w : Lookout) (kind : Kind) (d : Daemon) (notice : Notice) (rest : List Reaction) :
    Lookout :=
  { d with
    calls := if rest.isEmpty then w.calls.erase kind else w.calls.insert kind ⟨notice, rest⟩ }

inductive Action where
  | call (kind : Kind) (notice : Notice)
  | go (kind : Kind)
  /-- Whatever the other tasks do to what they share with the handlers. -/
  | other (hub : Hub Event) (collectors : Table Kind Collector) (queues : Table Kind WorkQueue)

def step (w : Lookout) : Action → Option Lookout
  | .call kind notice =>
    match w.calls.get? kind with
    | some _ => none
    | none => some (w.proceed kind w.toDaemon notice (notice.reactions kind))
  | .go kind =>
    match w.calls.get? kind with
    | some ⟨notice, r :: rest⟩ =>
      let (d, more) := r.step w.toDaemon
      some (w.proceed kind d notice (more ++ rest))
    | _ => none
  | .other hub collectors queues =>
    if queues.keys = w.router.queues.keys then
      some { w with hub, collectors, router := { w.router with queues } }
    else none

def run (w : Lookout) (as : List Action) : Option Lookout := as.foldlM step w

def restOf (w : Lookout) (kind : Kind) : List Reaction :=
  ((w.calls.get? kind).map Call.rest).getD []

theorem restOf_proceed (w : Lookout) (kind : Kind) (d : Daemon) (n : Notice)
    (rest : List Reaction) (k : Kind) :
    (w.proceed kind d n rest).restOf k = if k = kind then rest else w.restOf k := by
  unfold restOf proceed
  dsimp only
  split
  · next he =>
    rw [Table.get?_erase]
    split
    · exact (List.isEmpty_iff.1 he).symm
    · rfl
  · rw [Table.get?_insert]
    split <;> rfl

theorem restOf_proceed_self (w : Lookout) (kind : Kind) (d : Daemon) (n : Notice)
    (rest : List Reaction) : (w.proceed kind d n rest).restOf kind = rest := by
  rw [restOf_proceed, if_pos rfl]

theorem restOf_proceed_of_ne (w : Lookout) (d : Daemon) (n : Notice) (rest : List Reaction)
    (hk : k ≠ kind) : (w.proceed kind d n rest).restOf k = w.restOf k := by
  rw [restOf_proceed, if_neg hk]

theorem restOf_eq (h : w.calls.get? kind = some ⟨n, rest⟩) : w.restOf kind = rest := by
  simp [restOf, h]

theorem get?_proceed (w : Lookout) (kind : Kind) (d : Daemon) (n : Notice)
    (rest : List Reaction) {k : Kind} (hk : k ≠ kind) :
    (w.proceed kind d n rest).calls.get? k = w.calls.get? k := by
  unfold proceed
  dsimp only
  split
  · exact Table.get?_erase_of_ne _ hk
  · exact Table.get?_insert_of_ne _ _ hk

theorem get?_proceed_self (w : Lookout) (kind : Kind) (d : Daemon) (n : Notice)
    (rest : List Reaction) : (w.proceed kind d n rest).calls.get? kind =
      if rest = [] then none else some ⟨n, rest⟩ := by
  unfold proceed
  cases rest with
  | nil => exact Table.get?_erase_self _ _
  | cons => exact Table.get?_insert_self _ _ _

theorem get?_of_restOf_ne_nil (h : w.restOf kind ≠ []) :
    ∃ n, w.calls.get? kind = some ⟨n, w.restOf kind⟩ := by
  unfold restOf at h ⊢
  cases hc : w.calls.get? kind with
  | none => simp [hc] at h
  | some c => exact ⟨c.notice, rfl⟩

inductive Steps (w : Lookout) : Action → Lookout → Prop where
  | call (kind : Kind) (n : Notice) : w.calls.get? kind = none →
      Steps w (.call kind n) (w.proceed kind w.toDaemon n (n.reactions kind))
  | go (kind : Kind) (n : Notice) (r : Reaction) (rest : List Reaction) :
      w.calls.get? kind = some ⟨n, r :: rest⟩ →
      Steps w (.go kind) (w.proceed kind (r.step w.toDaemon).1 n ((r.step w.toDaemon).2 ++ rest))
  | other (hub : Hub Event) (collectors : Table Kind Collector) (queues : Table Kind WorkQueue) :
      queues.keys = w.router.queues.keys →
      Steps w (.other hub collectors queues)
        { w with hub, collectors, router := { w.router with queues } }

theorem step_steps {a : Action} (h : w.step a = some w') : w.Steps a w' := by
  cases a with
  | call kind n =>
    simp only [step] at h
    split at h
    · contradiction
    · next hnone =>
      cases h
      exact .call kind n hnone
  | go kind =>
    simp only [step] at h
    split at h
    · next n r rest hc =>
      cases h
      exact .go kind n r rest hc
    · contradiction
  | other hub collectors queues =>
    simp only [step] at h
    split at h
    · next hkeys =>
      cases h
      exact .other hub collectors queues hkeys
    · contradiction

end Lookout

/-! ## What a reaction calls for -/

namespace Reaction

/-- The reaction only makes keys wait, or calls for such reactions. -/
def isTrigger : Reaction → Bool
  | trigger .. | triggerDeployment .. | triggerServices _ | triggerCached _ => true
  | _ => false

def touchesServices : Reaction → Bool
  | registerService _ | unregisterService _ | clearServices => true
  | _ => false

theorem isTrigger_podChanged {p : PodRecord} (h : x ∈ podChanged p) : x.isTrigger = true := by
  simp only [podChanged, List.mem_append, List.mem_cons, List.mem_flatMap, List.not_mem_nil,
    or_false] at h
  rcases h with ((rfl | rfl) | ⟨o, -, h⟩) | rfl
  · rfl
  · rfl
  · unfold forOwner at h
    grind [isTrigger]
  · rfl

theorem isTrigger_replicaSetChanged {s : ReplicaSetRecord} (h : x ∈ replicaSetChanged s) :
    x.isTrigger = true := by
  obtain ⟨o, -, rfl⟩ := List.mem_map.1 h
  rfl

theorem isTrigger_resync {keys : List Key} (h : x ∈ resync kind keys) : x.isTrigger = true := by
  rcases List.mem_append.1 h with h | h
  · obtain ⟨key, -, rfl⟩ := List.mem_map.1 h
    rfl
  · rw [List.mem_singleton.1 h]
    rfl

theorem isTrigger_of_mem_step (h : x ∈ (r.step d).2) : x.isTrigger = true := by
  cases r with
  | trigger | registerService | unregisterService | clearServices => contradiction
  | triggerDeployment | triggerServices | triggerCached =>
    obtain ⟨o, -, rfl⟩ := List.mem_map.1 h
    rfl
  | storePod p =>
    rcases List.mem_append.1 h with h | h
    · obtain ⟨q, -, h⟩ := List.mem_flatMap.1 h
      exact isTrigger_podChanged h
    · exact isTrigger_podChanged h
  | removePod p => exact isTrigger_podChanged h
  | replacePods ps =>
    rcases List.mem_append.1 h with h | h
    · rw [← List.flatMap_append] at h
      obtain ⟨q, -, h⟩ := List.mem_flatMap.1 h
      exact isTrigger_podChanged h
    · exact isTrigger_resync h
  | storeReplicaSet s =>
    rcases List.mem_append.1 h with h | h
    · rcases List.mem_append.1 h with h | h
      · obtain ⟨q, -, h⟩ := List.mem_flatMap.1 h
        exact isTrigger_replicaSetChanged h
      · exact isTrigger_replicaSetChanged h
    · rw [List.mem_singleton.1 h]
      rfl
  | removeReplicaSet s =>
    rcases List.mem_append.1 h with h | h
    · exact isTrigger_replicaSetChanged h
    · rw [List.mem_singleton.1 h]
      rfl
  | replaceReplicaSets ss =>
    rcases List.mem_append.1 h with h | h
    · rw [← List.flatMap_append] at h
      obtain ⟨q, -, h⟩ := List.mem_flatMap.1 h
      exact isTrigger_replicaSetChanged h
    · exact isTrigger_resync h

theorem isTrue_of_isTrigger (h : x.isTrigger = true) : x.IsTrue who := by
  cases x <;> trivial

theorem touchesServices_of_isTrigger (h : x.isTrigger = true) : x.touchesServices = false := by
  cases x <;> first | rfl | contradiction

theorem services_step (h : r.touchesServices = false) (d : Daemon) :
    (r.step d).1.router.services = d.router.services := by
  cases r <;> first | rfl | contradiction

theorem isEnabled_step (d : Daemon) (r : Reaction) (kind : Kind) :
    (r.step d).1.router.isEnabled kind = d.router.isEnabled kind := by
  cases r with
  | trigger k key =>
    show (d.router.queues.modify k _).contains kind = _
    rw [Table.contains, Table.get?_modify]
    split
    · next hk => simp [hk, Router.isEnabled, Table.contains]
    · rfl
  | _ => rfl

end Reaction

theorem Notice.touchesServices_reactions (hk : kind ≠ .service) (h : x ∈ n.reactions kind) :
    x.touchesServices = false := by
  cases kind with
  | service => contradiction
  | pod =>
    cases n with
    | applied o | deleted o =>
      obtain ⟨p, -, rfl⟩ := List.mem_map.1 h
      rfl
    | restarted os =>
      rw [List.mem_singleton.1 h]
      rfl
  | replicaSet =>
    cases n with
    | applied o | deleted o =>
      obtain ⟨p, -, rfl⟩ := List.mem_map.1 h
      rfl
    | restarted os =>
      rw [List.mem_singleton.1 h]
      rfl
  | nameSpace | deployment | replicationController =>
    cases n with
    | applied o | deleted o =>
      obtain ⟨p, -, rfl⟩ := List.mem_map.1 h
      rfl
    | restarted os => exact Reaction.touchesServices_of_isTrigger (Reaction.isTrigger_resync h)

end Nodecast
