import Nodecast.Proofs.Backlog.Conserved
import Nodecast.Proofs.Sums

/-!
# The retries of one key

A failure that another try may help sets a timer, whether or not an older one of its key is still
to ring. How many are outstanding follows from where failures and triggers fall between them.
-/

namespace Nodecast

namespace Backlog

variable {s s' : Backlog} {key k : Key} {a : Action} {actions : List Action} {b : Backoff}

/-! ## Moves of a run -/

/-- What an action that is possible leads to. -/
inductive Does (s : Backlog) : Action → Backlog → Prop where
  | enter (workers : Nat) : s.Does (.enter workers) { s with queue := (s.queue.enter workers).2 }
  | ask (key : Key) : s.Does (.ask key) (s.ask key)
  | send (key : Key) : key ∈ s.adding → s.Does (.send key) (s.send key)
  | receive (run : Nat) (key : Key) (rest : List Key) : s.picked = none →
      s.queue.channel = key :: rest →
      s.Does (.receive run)
        { s with queue := { s.queue with channel := rest }, picked := some (run, key) }
  | start (run : Nat) (key : Key) : s.picked = some (run, key) → s.Does .start (s.start run key)
  | complete (run : Nat) (key : Key) (outcome : Except CycleError Unit) :
      s.isBusy run key = true → s.Does (.complete run key outcome) (s.complete run key outcome)
  | wait (time : Nat) : s.Does (.wait time) { s with now := s.now + time }
  | ring (r : Retry) : r ∈ s.timers → r.due ≤ s.now → s.Does (.ring r) (s.ring r)

theorem does_of_step (hs : s.step a = some s') : s.Does a s' := by
  cases a with
  | enter workers =>
    cases hs
    exact .enter workers
  | ask key =>
    cases hs
    exact .ask key
  | send key =>
    obtain ⟨hk, hs⟩ := Option.ite_none_right_eq_some.1 hs
    cases hs
    exact .send key hk
  | receive run =>
    obtain ⟨hp, hs⟩ := Option.ite_none_left_eq_some.1 hs
    obtain ⟨⟨key, q⟩, hq, rfl⟩ := Option.map_eq_some_iff.1 hs
    obtain ⟨rest, hc, rfl⟩ := WorkQueue.receive_eq_some.1 (WorkQueue.receive_of_claim hq)
    exact .receive run key rest (by simpa using hp) hc
  | start =>
    obtain ⟨⟨run, key⟩, hp, rfl⟩ := Option.map_eq_some_iff.1 hs
    exact .start run key hp
  | complete run key outcome =>
    obtain ⟨hbusy, hs⟩ := Option.ite_none_right_eq_some.1 hs
    cases hs
    exact .complete run key outcome hbusy
  | wait time =>
    obtain ⟨-, hs⟩ := Option.ite_none_right_eq_some.1 hs
    cases hs
    exact .wait time
  | ring r =>
    obtain ⟨⟨hr, hd⟩, hs⟩ := Option.ite_none_right_eq_some.1 hs
    cases hs
    exact .ring r hr hd

/-- An action with the state before it and the state after it. -/
structure Move where
  before : Backlog
  action : Action
  after : Backlog

/-- What is done, up to the first action that is not possible. -/
def moves (s : Backlog) : List Action → List Move
  | [] => []
  | a :: rest =>
    match s.step a with
    | some s' => ⟨s, a, s'⟩ :: s'.moves rest
    | none => []

theorem moves_cons_none (hs : s.step a = none) : s.moves (a :: actions) = [] := by
  rw [moves, hs]

theorem moves_cons (hs : s.step a = some s') :
    s.moves (a :: actions) = ⟨s, a, s'⟩ :: s'.moves actions := by
  rw [moves, hs]

theorem moves_keep {P : Backlog → Prop} (h : P s)
    (hstep : ∀ m ∈ s.moves actions, m.before.step m.action = some m.after →
      P m.before → P m.after) :
    ∀ m ∈ s.moves actions, m.before.step m.action = some m.after ∧ P m.before ∧ P m.after := by
  induction actions generalizing s with
  | nil => exact fun m hm => absurd hm List.not_mem_nil
  | cons a rest ih =>
    cases hs : s.step a with
    | none =>
      rw [moves_cons_none hs]
      exact fun m hm => absurd hm List.not_mem_nil
    | some s' =>
      rw [moves_cons hs] at hstep ⊢
      have hs' := hstep _ List.mem_cons_self hs h
      intro m hm
      rcases List.mem_cons.1 hm with rfl | hm
      · exact ⟨hs, h, hs'⟩
      · exact ih hs' (fun m hm => hstep m (List.mem_cons_of_mem _ hm)) m hm

/-- A call for the key ends in a failure that another try may help. -/
def Action.failsFor (key : Key) : Action → Bool
  | .complete _ k outcome => k = key && WorkQueue.isRetryable outcome
  | _ => false

/-- A trigger for the key. The end of a timer is none. -/
def Action.asksFor (key : Key) : Action → Bool
  | .ask k => k = key
  | _ => false

/-! ## Timers -/

/-- The timers of the key that are still to ring. -/
def outstanding (s : Backlog) (key : Key) : Nat := s.timers.countP (·.key = key)

theorem not_mem_of_outstanding {r : Retry} (h : s.outstanding key = 0) (hr : r ∈ s.timers) :
    r.key ≠ key := by
  rw [outstanding, List.countP_eq_zero] at h
  simpa using h r hr

theorem ask_eq (s : Backlog) (key : Key) : s.ask key =
    if s.queue.contains key then { s with log := .added key :: s.log }
    else { s with queue := (s.queue.mark key).2, adding := s.adding ++ [key] } := by
  unfold ask WorkQueue.mark
  cases s.queue.contains key <;> rfl

@[simp] theorem timers_ask (s : Backlog) (key : Key) : (s.ask key).timers = s.timers := by
  rw [ask_eq]
  split <;> rfl

@[simp] theorem timers_ring (s : Backlog) (r : Retry) :
    (s.ring r).timers = s.timers.erase r := timers_ask _ r.key

theorem timers_complete (s : Backlog) (run : Nat) (key : Key) (outcome : Except CycleError Unit) :
    (s.complete run key outcome).timers =
      if WorkQueue.isRetryable outcome then
        ⟨key, s.now + (s.queue.backoff.delay (s.queue.failures.getD key 0 + 1).toNat).total⟩ ::
          s.timers
      else s.timers := by
  unfold complete
  rw [WorkQueue.complete_eq, WorkQueue.finish_eq]
  cases WorkQueue.isRetryable outcome <;> rfl

theorem failsFor_complete {run : Nat} {outcome : Except CycleError Unit} :
    (Action.complete run k outcome).failsFor key = true ↔
      k = key ∧ WorkQueue.isRetryable outcome = true := by
  simp [Action.failsFor]

theorem outstanding_of_fails (hs : s.step a = some s') (hf : a.failsFor key = true) :
    s'.outstanding key = s.outstanding key + 1 := by
  cases does_of_step hs with
  | complete run k outcome =>
    obtain ⟨rfl, hw⟩ := failsFor_complete.1 hf
    rw [outstanding, timers_complete, if_pos hw, List.countP_cons_of_pos (by simp), outstanding]
  | _ => contradiction

theorem outstanding_le_of_not_fails (hs : s.step a = some s') (hf : ¬a.failsFor key = true) :
    s'.outstanding key ≤ s.outstanding key := by
  cases does_of_step hs with
  | complete run k outcome =>
    rw [failsFor_complete] at hf
    rw [outstanding, timers_complete]
    split
    · next hw =>
      have hk : k ≠ key := fun e => hf ⟨e, hw⟩
      rw [List.countP_cons_of_neg (by simpa using hk)]
      exact Nat.le_refl _
    · exact Nat.le_refl _
  | ask k =>
    rw [outstanding, timers_ask]
    exact Nat.le_refl _
  | ring r =>
    rw [outstanding, timers_ring]
    exact List.Sublist.countP_le List.erase_sublist
  | _ => exact Nat.le_refl _

/-! ## The newest failure -/

/-- When the newest failure of the key allows another try. -/
def nextTry (b : Backoff) (key : Key) : List Happening → Option Nat
  | [] => none
  | .ended k outcome time :: before =>
    if k = key ∧ WorkQueue.isRetryable outcome = true then
      some (time + (delayAfter b (streak key before + 1)).total)
    else nextTry b key before
  | _ :: before => nextTry b key before

theorem backoff_step (hs : s.step a = some s') : s'.queue.backoff = s.queue.backoff := by
  have hask : ∀ (s : Backlog) (key : Key), (s.ask key).queue.backoff = s.queue.backoff := by
    intro s key
    rw [ask_eq]
    unfold WorkQueue.mark
    cases s.queue.contains key <;> rfl
  cases does_of_step hs with
  | ask key => exact hask s key
  | ring r => exact hask _ r.key
  | complete run key outcome =>
    unfold complete
    rw [WorkQueue.complete_eq, WorkQueue.finish_eq]
    cases WorkQueue.isRetryable outcome <;> rfl
  | _ => rfl

theorem nextTry_step (hs : s.step a = some s') (hf : ¬a.failsFor key = true) :
    nextTry b key s'.log = nextTry b key s.log := by
  have hask : ∀ (s : Backlog) (k : Key), nextTry b key (s.ask k).log = nextTry b key s.log := by
    intro s k
    rw [ask_eq]
    cases s.queue.contains k <;> rfl
  cases does_of_step hs with
  | ask k => exact hask s k
  | ring r => exact hask _ r.key
  | complete run k outcome =>
    rw [failsFor_complete] at hf
    exact if_neg hf
  | _ => rfl

/-- Every outstanding retry of the key is that of its newest failure. -/
def Timely (s : Backlog) (key : Key) : Prop :=
  ∀ r ∈ s.timers, r.key = key → nextTry s.queue.backoff key s.log = some r.due

theorem Timely.step (v : s.Valid) (ht : s.Timely key) (hs : s.step a = some s')
    (hnone : a.failsFor key = true → s.outstanding key = 0) : s'.Timely key := by
  intro r hr hk
  by_cases hf : a.failsFor key = true
  · have hb := backoff_step hs
    cases does_of_step hs with
    | complete run k outcome =>
      obtain ⟨rfl, hw⟩ := failsFor_complete.1 hf
      rw [timers_complete, if_pos hw] at hr
      rcases List.mem_cons.1 hr with rfl | hr
      · rw [hb, v.delay_eq]
        exact if_pos ⟨rfl, hw⟩
      · exact absurd hk (not_mem_of_outstanding (hnone hf) hr)
    | _ => contradiction
  · rw [backoff_step hs, nextTry_step hs hf]
    refine ht r ?_ hk
    cases does_of_step hs with
    | complete run k outcome =>
      rw [failsFor_complete] at hf
      rw [timers_complete] at hr
      split at hr
      · next hw =>
        rcases List.mem_cons.1 hr with rfl | hr
        · exact absurd ⟨hk, hw⟩ hf
        · exact hr
      · exact hr
    | ask k =>
      rw [timers_ask] at hr
      exact hr
    | ring r' =>
      rw [timers_ring] at hr
      exact List.mem_of_mem_erase hr
    | _ => exact hr

/-! ## A retry that is set -/

theorem contains_ring (s : Backlog) (r : Retry) : (s.ring r).queue.contains r.key = true := by
  unfold ring
  rw [ask_eq]
  split
  · next hk => exact hk
  · next hk =>
    simp only [WorkQueue.mark, if_neg hk]
    simp [WorkQueue.contains]

theorem mem_timers_step {r : Retry} (hr : r ∈ s.timers) (hs : s.step a = some s')
    (hne : a ≠ .ring r) : r ∈ s'.timers := by
  cases does_of_step hs with
  | ask k => rwa [timers_ask]
  | ring r' =>
    rw [timers_ring]
    exact (List.mem_erase_of_ne fun he => hne (congrArg Action.ring he.symm)).2 hr
  | complete run k outcome =>
    rw [timers_complete]
    split
    · exact List.mem_cons_of_mem _ hr
    · exact hr
  | _ => exact hr

/-! ## What a key occupies -/

/-- Calls for the key that are under way. -/
def calls (s : Backlog) (key : Key) : Nat := s.queue.runs.weigh fun r => r.active.count key

/-- The places where the key waits, is handled, or is to be tried again. -/
def load (s : Backlog) (key : Key) : Nat := s.held.count key + s.calls key + s.outstanding key

theorem load_ask (s : Backlog) (key k : Key) :
    (s.ask k).load key ≤ s.load key + if k = key then 1 else 0 := by
  rw [ask_eq]
  split
  · exact Nat.le_add_right _ _
  · have hcalls : calls { s with queue := (s.queue.mark k).2, adding := s.adding ++ [k] } key =
        s.calls key := by
      unfold calls WorkQueue.mark
      split <;> rfl
    have hsent : sent { s with queue := (s.queue.mark k).2, adding := s.adding ++ [k] } =
        s.sent := by
      unfold sent WorkQueue.mark
      split <;> rfl
    unfold load
    rw [hcalls, held, hsent, held]
    simp only [List.count_append, List.count_singleton, beq_iff_eq, outstanding]
    omega

theorem load_ring {r : Retry} (hr : r ∈ s.timers) : (s.ring r).load key ≤ s.load key := by
  have hask := load_ask { s with timers := s.timers.erase r, rung := ⟨r.key, s.now⟩ :: s.rung } key
    r.key
  have hcount : s.outstanding key =
      (s.timers.erase r).countP (·.key = key) + if r.key = key then 1 else 0 := by
    have h := (List.perm_cons_erase hr).countP_eq (fun t : Retry => t.key = key)
    rw [List.countP_cons] at h
    simpa [outstanding] using h
  calc (s.ring r).load key
    _ ≤ _ := hask
    _ = s.load key := by
      rw [load, load, hcount, ← Nat.add_assoc]
      rfl

theorem load_start {run : Nat} (hp : s.picked = some (run, k)) :
    (s.start run k).load key ≤ s.load key := by
  have hsent : s.sent = k :: s.queue.channel := by
    rw [sent, hp]
    rfl
  have hheld : s.held.count key = (s.start run k).held.count key + [k].count key := by
    have hrest : (s.start run k).held = s.adding ++ s.queue.channel := rfl
    rw [held, hsent, hrest]
    simp only [List.count_append, List.count_cons, List.count_nil]
    omega
  have hcalls : (s.start run k).calls key ≤ s.calls key + [k].count key := by
    show (s.queue.runs.modify run _).weigh _ ≤ _
    cases hr : s.queue.runs.get? run with
    | none =>
      rw [Table.modify, hr]
      exact Nat.le_add_right _ _
    | some r =>
      have h := Table.weigh_modify (fun r : WorkQueue.Run => r.active.count key)
        (fun r => { r with active := r.active ++ [k] }) hr
      simp only [List.count_append] at h
      unfold calls
      omega
  have htimers : (s.start run k).outstanding key = s.outstanding key := rfl
  unfold load
  omega

theorem load_complete {run : Nat} {outcome : Except CycleError Unit}
    (hbusy : s.isBusy run k = true) : (s.complete run k outcome).load key ≤ s.load key := by
  obtain ⟨r, hr, hk⟩ := (Option.any_eq_true _ _).1 hbusy
  have hmem : k ∈ r.active := by simpa using hk
  have hruns : (s.complete run k outcome).queue.runs =
      s.queue.runs.modify run fun r => { r with active := r.active.erase k } :=
    s.queue.runs_complete run k outcome
  have hheld : (s.complete run k outcome).held = s.held := by
    unfold complete held sent
    rw [WorkQueue.complete_eq, WorkQueue.finish_eq]
    cases WorkQueue.isRetryable outcome <;> rfl
  have hcalls : (s.complete run k outcome).calls key + [k].count key = s.calls key := by
    have h := Table.weigh_modify (fun r : WorkQueue.Run => r.active.count key)
      (fun r => { r with active := r.active.erase k }) hr
    have hcount := (List.perm_cons_erase hmem).count_eq key
    rw [List.count_cons, ← List.count_singleton] at hcount
    unfold calls
    rw [hruns]
    simp only at h
    omega
  have htimers : (s.complete run k outcome).outstanding key ≤
      s.outstanding key + [k].count key := by
    rw [outstanding, timers_complete]
    split
    · rw [List.countP_cons, List.count_singleton]
      simp [outstanding]
    · exact Nat.le_add_right _ _
  unfold load
  rw [hheld]
  omega

/-- A key occupies one more place for each trigger at most. -/
theorem load_step (hs : s.step a = some s') (key : Key) :
    s'.load key ≤ s.load key + if a.asksFor key then 1 else 0 := by
  cases does_of_step hs with
  | ask k => simpa [Action.asksFor] using load_ask s key k
  | ring r hr => exact load_ring hr
  | start run k hp => exact load_start hp
  | complete run k outcome hbusy => exact load_complete hbusy
  | enter workers =>
    have hcalls : calls { s with queue := (s.queue.enter workers).2 } key ≤ s.calls key := by
      show (s.queue.runs.insert _ _).weigh _ ≤ _
      rw [Table.weigh_insert, List.count_nil, Nat.zero_add]
      exact Table.weigh_erase_le _ _ _
    exact Nat.add_le_add_right (Nat.add_le_add_left hcalls _) _
  | send k hk =>
    have hheld : (s.send k).held.count key = s.held.count key := by
      have hcount := (List.perm_cons_erase hk).count_eq key
      rw [held, sent_send, held]
      have hrest : (s.send k).adding = s.adding.erase k := rfl
      rw [hrest]
      simp only [List.count_append, List.count_cons, List.count_nil] at hcount ⊢
      omega
    unfold load
    rw [hheld]
    exact Nat.le_refl _
  | receive run k rest hp hc =>
    have hsent :
        sent { s with queue := { s.queue with channel := rest }, picked := some (run, k) } =
          s.sent := by
      rw [sent, sent, hp, hc]
      rfl
    unfold load held
    rw [hsent]
    exact Nat.le_refl _
  | wait time => exact Nat.le_refl _

/-! ## Runs -/

/-- No call for the key fails while a retry of the key is outstanding. -/
def Spaced (ms : List Move) (key : Key) : Prop :=
  ∀ m ∈ ms, m.action.failsFor key = true → m.before.outstanding key = 0

/-- The key is triggered only while it occupies no place. -/
def Calm (ms : List Move) (key : Key) : Prop :=
  ∀ m ∈ ms, m.action.asksFor key = true → m.before.load key = 0

theorem step_of_mem_moves {m : Move} (hm : m ∈ s.moves actions) :
    m.before.step m.action = some m.after :=
  (moves_keep (P := fun _ => True) trivial (fun _ _ _ _ => trivial) m hm).1

theorem Spaced.outstanding_le (h : Spaced (s.moves actions) key) (hs : s.outstanding key ≤ 1) :
    ∀ m ∈ s.moves actions, m.after.outstanding key ≤ 1 := by
  have hkeep : ∀ m ∈ s.moves actions, m.before.step m.action = some m.after →
      m.before.outstanding key ≤ 1 → m.after.outstanding key ≤ 1 := by
    intro m hm hstep hle
    by_cases hf : m.action.failsFor key = true
    · exact Nat.le_of_eq (by rw [outstanding_of_fails hstep hf, h m hm hf])
    · exact Nat.le_trans (outstanding_le_of_not_fails hstep hf) hle
  exact fun m hm => (moves_keep (P := fun s => s.outstanding key ≤ 1) hs hkeep m hm).2.2

theorem spaced_of_outstanding_le (h : ∀ m ∈ s.moves actions, m.after.outstanding key ≤ 1) :
    Spaced (s.moves actions) key := by
  intro m hm hf
  have hafter := h m hm
  rw [outstanding_of_fails (step_of_mem_moves hm) hf] at hafter
  omega

theorem Spaced.nextTry_ring (h : Spaced (s.moves actions) key) (v : s.Valid) (ht : s.Timely key)
    {m : Move} (hm : m ∈ s.moves actions) {r : Retry} (ha : m.action = .ring r) (hk : r.key = key) :
    nextTry m.before.queue.backoff key m.before.log = some m.before.now := by
  have hkeep : ∀ m ∈ s.moves actions, m.before.step m.action = some m.after →
      m.before.Valid ∧ m.before.Timely key → m.after.Valid ∧ m.after.Timely key :=
    fun m hm hstep ⟨v, ht⟩ => ⟨v.step hstep, ht.step v hstep (h m hm)⟩
  obtain ⟨hstep, ⟨hv, htimely⟩, -⟩ :=
    moves_keep (P := fun s => s.Valid ∧ s.Timely key) ⟨v, ht⟩ hkeep m hm
  rw [ha] at hstep
  obtain ⟨⟨hr, hd⟩, -⟩ := Option.ite_none_right_eq_some.1 hstep
  rw [htimely r hr hk, Nat.le_antisymm hd (hv.due r hr)]

/-- A key that is triggered at rest occupies one place from then on, so nothing of it is
outstanding when a call for it fails. -/
theorem Calm.spaced (h : Calm (s.moves actions) key) (hs : s.load key ≤ 1) :
    Spaced (s.moves actions) key := by
  have hkeep : ∀ m ∈ s.moves actions, m.before.step m.action = some m.after →
      m.before.load key ≤ 1 → m.after.load key ≤ 1 := by
    intro m hm hstep hle
    have hload := load_step hstep key
    split at hload
    · next hasks =>
      rw [h m hm hasks] at hload
      exact hload
    · exact Nat.le_trans hload hle
  refine spaced_of_outstanding_le fun m hm => ?_
  have hle := (moves_keep (P := fun s => s.load key ≤ 1) hs hkeep m hm).2.2
  unfold load at hle
  omega

theorem load_run (hs : s.run actions = some s') (key : Key) :
    s'.load key ≤ s.load key + actions.countP (Action.asksFor key) := by
  induction actions generalizing s with
  | nil =>
    cases hs
    exact Nat.le_refl _
  | cons a rest ih =>
    obtain ⟨s1, h1, hrest⟩ := Option.bind_eq_some_iff.1 hs
    have hload := load_step h1 key
    have hrun := ih hrest
    rw [List.countP_cons]
    omega

/-- A key has one outstanding retry at most throughout a run exactly if no call for it fails while
an older retry of it is outstanding, and then each retry comes when the newest failure allows it.
So it is where the key is triggered at rest only. A key that is triggered more often occupies no
more places than it had triggers, and timers are among them. -/
theorem one_retry_iff_spaced (kind : Kind) (backoff : Backoff) (actions : List Action) (key : Key) :
    ((∀ m ∈ (fresh kind backoff).moves actions, m.after.outstanding key ≤ 1) ↔
      Spaced ((fresh kind backoff).moves actions) key) ∧
    (Spaced ((fresh kind backoff).moves actions) key →
      ∀ m ∈ (fresh kind backoff).moves actions, ∀ r, m.action = .ring r → r.key = key →
        nextTry backoff key m.before.log = some m.before.now) ∧
    (Calm ((fresh kind backoff).moves actions) key →
      Spaced ((fresh kind backoff).moves actions) key) ∧
    ∀ s, (fresh kind backoff).run actions = some s →
      s.outstanding key ≤ s.load key ∧ s.load key ≤ actions.countP (Action.asksFor key) := by
  have hnone : (fresh kind backoff).load key = 0 := rfl
  have hkept : ∀ m ∈ (fresh kind backoff).moves actions, m.before.queue.backoff = backoff :=
    fun m hm => (moves_keep (P := fun s => s.queue.backoff = backoff) rfl
      (fun m _ hstep h => (backoff_step hstep).trans h) m hm).2.1
  refine ⟨⟨spaced_of_outstanding_le, fun h => h.outstanding_le (Nat.zero_le 1)⟩, ?_,
    fun h => h.spaced (hnone ▸ Nat.zero_le 1), ?_⟩
  · intro h m hm r ha hk
    rw [← hkept m hm]
    exact h.nextTry_ring (valid_fresh kind backoff) nofun hm ha hk
  · intro s hs
    have hload := load_run hs key
    rw [hnone, Nat.zero_add] at hload
    exact ⟨Nat.le_add_left _ _, hload⟩

def failed : Except CycleError Unit := .error (.fetch .deployment webKey)

def slow : Backoff := ⟨.ofMillis 1000, .ofSecs 100⟩

/-- The key is triggered once and fails twice. -/
def patient : List Action :=
  [.enter 1, .ask webKey, .send webKey, .receive 0, .start, .complete 0 webKey failed,
    .wait 1000000000, .ring ⟨webKey, 1000000000⟩, .send webKey, .receive 0, .start,
    .complete 0 webKey failed, .wait 2000000000, .ring ⟨webKey, 3000000000⟩]

theorem one_retry_iff_spaced_patient :
    ∃ s, (fresh .deployment slow).run patient = some s ∧ s.queue.failureCount webKey = 2 ∧
      (∀ m ∈ (fresh .deployment slow).moves patient, m.after.outstanding webKey ≤ 1) ∧
      ∀ m ∈ (fresh .deployment slow).moves patient, ∀ r, m.action = .ring r → r.key = webKey →
        nextTry slow webKey m.before.log = some m.before.now := by
  have hcalm : Calm ((fresh .deployment slow).moves patient) webKey := by
    unfold Calm
    decide
  obtain ⟨hiff, hring, hspaced, -⟩ := one_retry_iff_spaced .deployment slow patient webKey
  exact ⟨_, rfl, rfl, hiff.2 (hspaced hcalm), hring (hspaced hcalm)⟩

/-- The key fails, is triggered half a second later, and fails again. -/
def hasty : List Action :=
  [.enter 1, .ask webKey, .send webKey, .receive 0, .start, .complete 0 webKey failed,
    .wait 500000000, .ask webKey, .send webKey, .receive 0, .start, .complete 0 webKey failed,
    .wait 500000000]

/-- Two retries are outstanding, and a third call begins after one second although the second
failure allows none before two seconds and a half. -/
theorem not_one_retry_hasty :
    ∃ s s', (fresh .deployment slow).run hasty = some s ∧ s.outstanding webKey = 2 ∧
      s.now = 1000000000 ∧ nextTry slow webKey s.log = some 2500000000 ∧
      s.run [.ring ⟨webKey, 1000000000⟩, .send webKey, .receive 0, .start] = some s' ∧
      s'.now = 1000000000 ∧ s'.log.head? = some (.started webKey) :=
  ⟨_, _, rfl, by decide, rfl, rfl, rfl, rfl, rfl⟩

end Backlog

end Nodecast
