import Nodecast.Settings
import Nodecast.Watch.Notice

/-!
# Queues and what comes to wait in them

What counts as waiting is on its way to a worker, each key once. Where objects concern themselves
only, a notice makes the keys wait that it names, and after a restart all that are cached.
-/

namespace Nodecast

/-! ## One queue -/

namespace WorkQueue

variable {q q' : WorkQueue} {key k : Key}

/-- What counts as waiting is on its way to a worker, each key once. -/
structure Valid (q : WorkQueue) : Prop where
  marked : q.marked = q.channel
  nodup : q.channel.Nodup

theorem contains_iff : q.contains key = true ↔ key ∈ q.marked := by
  simp [contains]

theorem mem_marked_add : k ∈ (q.add key).marked ↔ k = key ∨ k ∈ q.marked := by
  by_cases h : key ∈ q.marked
  · simp only [add, mark, contains_iff.2 h, if_true]
    refine ⟨Or.inr, ?_⟩
    rintro (rfl | hk)
    · exact h
    · exact hk
  · simp [add, mark, contains, h, send, or_comm]

theorem Valid.add (v : q.Valid) (key : Key) : (q.add key).Valid := by
  by_cases h : key ∈ q.marked
  · simp only [WorkQueue.add, mark, contains_iff.2 h, if_true]
    exact v
  · simp only [WorkQueue.add, mark, contains, h, decide_false, Bool.false_eq_true, if_false, send]
    rw [v.marked] at h
    refine ⟨by rw [v.marked], List.nodup_append.2 ⟨v.nodup, by simp, ?_⟩⟩
    intro a ha b hb
    rw [List.mem_singleton] at hb
    rintro rfl
    exact h (hb ▸ ha)

theorem Valid.pick (v : q.Valid) (h : q.pick = some (key, q')) :
    q'.Valid ∧ key ∈ q.marked ∧ ∀ k, k ∈ q'.marked ↔ k ≠ key ∧ k ∈ q.marked := by
  obtain ⟨⟨key', q1⟩, h1, h2⟩ := Option.map_eq_some_iff.1 h
  cases h2
  unfold receive at h1
  split at h1
  · contradiction
  · next rest hc =>
    cases h1
    have hn := v.nodup
    rw [hc, List.nodup_cons] at hn
    have hrest : q.marked.filter (· ≠ key) = rest := by
      rw [v.marked, hc, List.filter_cons_of_neg (by simp), List.filter_eq_self]
      intro a ha
      simp only [ne_eq, decide_eq_true_eq]
      rintro rfl
      exact hn.1 ha
    refine ⟨⟨hrest, hn.2⟩, ?_, ?_⟩
    · rw [v.marked, hc]
      exact List.mem_cons_self
    · intro k
      simp [unmark, and_comm]

theorem Valid.finish (v : q.Valid) (key : Key) (outcome : Except CycleError Unit) :
    (q.finish key outcome).2.Valid ∧ (q.finish key outcome).2.marked = q.marked := by
  unfold WorkQueue.finish
  split
  · exact ⟨⟨v.marked, v.nodup⟩, rfl⟩
  · split <;> exact ⟨⟨v.marked, v.nodup⟩, rfl⟩

theorem finish_delay (key : Key) (outcome : Except CycleError Unit) :
    (q.finish key outcome).1.isSome = true ↔
      ∃ e, outcome = .error e ∧ e.isRetryable = true := by
  unfold finish
  cases outcome with
  | ok u => simp
  | error e => cases h : e.isRetryable <;> simp [h]

end WorkQueue

/-! ## The queue of a kind -/

namespace Router

variable {r : Router} {kind : Kind} {key k : Key}

/-- Whether the key waits in the queue of the kind. -/
def waits (r : Router) (kind : Kind) (key : Key) : Bool :=
  (r.queues.get? kind).any fun q => q.contains key

def Serves (r : Router) (kind : Kind) : Prop := ∃ q, r.queues.get? kind = some q ∧ q.Valid

def triggerAll (r : Router) (kind : Kind) (keys : List Key) : Router :=
  keys.foldl (fun r key => r.trigger kind key) r

theorem waits_iff {q : WorkQueue} (hq : r.queues.get? kind = some q) :
    r.waits kind key = true ↔ key ∈ q.marked := by
  simp [waits, hq, WorkQueue.contains]

theorem get?_trigger {q : WorkQueue} (hq : r.queues.get? kind = some q) (key : Key) :
    (r.trigger kind key).queues.get? kind = some (q.add key) := by
  simp [trigger, Table.get?_modify, hq]

theorem Serves.trigger (h : r.Serves kind) (key : Key) : (r.trigger kind key).Serves kind := by
  obtain ⟨q, hq, v⟩ := h
  exact ⟨_, get?_trigger hq key, v.add key⟩

theorem Serves.waits_trigger (h : r.Serves kind) :
    (r.trigger kind key).waits kind k = true ↔ k = key ∨ r.waits kind k = true := by
  obtain ⟨q, hq, -⟩ := h
  rw [waits_iff (get?_trigger hq key), waits_iff hq, WorkQueue.mem_marked_add]

theorem Serves.triggerAll (h : r.Serves kind) (keys : List Key) :
    (r.triggerAll kind keys).Serves kind := by
  induction keys generalizing r with
  | nil => exact h
  | cons key rest ih => exact ih (h.trigger key)

theorem Serves.waits_triggerAll (h : r.Serves kind) (keys : List Key) :
    (r.triggerAll kind keys).waits kind k = true ↔ k ∈ keys ∨ r.waits kind k = true := by
  induction keys generalizing r with
  | nil => simp [Router.triggerAll]
  | cons key rest ih =>
    have hrest := ih (h.trigger key)
    rw [h.waits_trigger] at hrest
    rw [List.mem_cons]
    exact hrest.trans (by rw [or_left_comm, or_assoc])

end Router

/-! ## Notices -/

namespace Notice

/-- The object that a notice is about, if it is about one only. -/
def about? : Notice → Option Key
  | applied o | deleted o => o.metadata.key?
  | restarted _ => none

/-- The keys that wait after a notice about objects that concern themselves only. -/
def triggered (n : Notice) (d : Daemon) (kind : Kind) : List Key :=
  match n with
  | applied o | deleted o => keysOf [o]
  | restarted os => keysOf os ++ d.cachedKeys kind

theorem triggered_of_about? {n : Notice} {key : Key} (h : n.about? = some key) (d : Daemon)
    (kind : Kind) : n.triggered d kind = [key] := by
  cases n with
  | applied o | deleted o =>
    have hk : o.metadata.key? = some key := h
    simp [triggered, keysOf, hk]
  | restarted os => contradiction

end Notice

namespace Reaction

theorem performWithin_triggers (n : Nat) (d : Daemon) (kind : Kind) (keys : List Key) :
    performWithin (n + 1) d (keys.map (trigger kind)) =
      { d with router := d.router.triggerAll kind keys } := by
  induction keys generalizing d with
  | nil => rfl
  | cons key rest ih =>
    have hnil : ∀ d : Daemon, performWithin n d [] = d := by
      intro d
      cases n <;> rfl
    have hstep : performWithin (n + 1) d ((key :: rest).map (trigger kind)) =
        performWithin (n + 1) (performWithin n { d with router := d.router.trigger kind key } [])
          (rest.map (trigger kind)) := rfl
    rw [hstep, hnil, ih]
    rfl

theorem performWithin_append (n : Nat) (d : Daemon) (rs more : List Reaction) :
    performWithin (n + 1) d (rs ++ more) =
      performWithin (n + 1) (performWithin (n + 1) d rs) more := List.foldl_append

theorem perform_plain (d : Daemon) (kind : Kind) (n : Notice) :
    perform d (n.plainReactions kind) =
      { d with router := d.router.triggerAll kind (n.triggered d kind) } := by
  cases n with
  | applied o | deleted o => exact performWithin_triggers 2 d kind (Notice.keysOf [o])
  | restarted os =>
    have hlisted := performWithin_triggers 2 d kind (Notice.keysOf os)
    have hcached := performWithin_triggers 1
      { d with router := d.router.triggerAll kind (Notice.keysOf os) } kind (d.cachedKeys kind)
    have hall : d.router.triggerAll kind (Notice.keysOf os ++ d.cachedKeys kind) =
        (d.router.triggerAll kind (Notice.keysOf os)).triggerAll kind (d.cachedKeys kind) :=
      List.foldl_append
    show performWithin 3 d ((Notice.keysOf os).map (trigger kind) ++ [triggerCached kind]) = _
    rw [performWithin_append, hlisted, Notice.triggered, hall]
    exact hcached

end Reaction

end Nodecast
