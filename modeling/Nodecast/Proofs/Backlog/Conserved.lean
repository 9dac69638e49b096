import Nodecast.Proofs.Backlog.Steps

/-!
# Nothing waits in vain and nothing is handled twice

A key that counts as waiting is in one place: at an addition that is to send it, in the channel, or
at a pick that is half done. The log tells when keys were added and calls began and ended, and from
it follow the failures in a row and the retries that are due.
-/

namespace Nodecast

namespace Backlog

variable {s s' : Backlog} {key k : Key} {id : Nat} {log : List Happening} {h : Happening}

/-! ## What the log says -/

/-- The key was added, and no call for it began since. -/
def Fresh (log : List Happening) (key : Key) : Prop :=
  ∃ since older, log = since ++ .added key :: older ∧ .started key ∉ since

/-- A key that was added is still marked, or a call for it began after that. -/
def Kept (log : List Happening) (marked : List Key) : Prop :=
  ∀ key after before, log = after ++ .added key :: before → key ∈ marked ∨ .started key ∈ after

/-- Whenever a call began, its key was added since the call before. -/
def Earned (log : List Happening) : Prop :=
  ∀ key after before, log = after ++ .started key :: before → Fresh before key

/-- How many calls for the key failed in a way worth another try, since one ended otherwise. -/
def streak (key : Key) : List Happening → Nat
  | [] => 0
  | .ended other outcome _ :: before =>
    if other = key then if WorkQueue.isRetryable outcome then streak key before + 1 else 0
    else streak key before
  | _ :: before => streak key before

/-- The delay after so many failures in a row, which are counted in 32 bits. -/
def delayAfter (b : Backoff) (failures : Nat) : Duration := b.delay (failures % UInt32.size)

theorem delayAfter_of_lt {n : Nat} (b : Backoff) (h : n < UInt32.size) :
    delayAfter b n = b.delay n := by
  rw [delayAfter, Nat.mod_eq_of_lt h]

/-- A retry for every failure worth another try, after the delay for so many failures. -/
def retries (b : Backoff) : List Happening → List Retry
  | [] => []
  | .ended key outcome time :: before =>
    if WorkQueue.isRetryable outcome then
      ⟨key, time + (delayAfter b (streak key before + 1)).total⟩ :: retries b before
    else retries b before
  | _ :: before => retries b before

theorem Fresh.cons (hf : Fresh log k) (hne : h ≠ .started k) : Fresh (h :: log) k := by
  obtain ⟨since, older, rfl, hs⟩ := hf
  refine ⟨h :: since, older, rfl, ?_⟩
  rw [List.mem_cons, not_or]
  exact ⟨hne.symm, hs⟩

theorem fresh_added (log : List Happening) (key : Key) : Fresh (.added key :: log) key :=
  ⟨[], log, rfl, List.not_mem_nil⟩

theorem Kept.cons {m m' : List Key} (hk : Kept log m) (hadded : ∀ k, h = .added k → k ∈ m')
    (hm : ∀ k ∈ m, k ∈ m' ∨ h = .started k) : Kept (h :: log) m' := by
  intro k after before he
  rcases List.cons_eq_append_iff.1 he with ⟨-, heq⟩ | ⟨after', rfl, hlog⟩
  · injection heq with heq _
    exact Or.inl (hadded k heq.symm)
  · rcases hk k after' before hlog with hmem | hstarted
    · refine (hm k hmem).imp_right ?_
      rintro rfl
      exact List.mem_cons_self
    · exact Or.inr (List.mem_cons_of_mem _ hstarted)

theorem Kept.mono {m m' : List Key} (hk : Kept log m) (hm : ∀ k ∈ m, k ∈ m') : Kept log m' :=
  fun k after before he => (hk k after before he).imp_left (hm k)

theorem Earned.cons (he : Earned log) (hstart : ∀ k, h = .started k → Fresh log k) :
    Earned (h :: log) := by
  intro k after before heq
  rcases List.cons_eq_append_iff.1 heq with ⟨-, heq⟩ | ⟨after', rfl, hlog⟩
  · injection heq with heq hlog
    exact hlog ▸ hstart k heq.symm
  · exact he k after' before hlog

/-! ## Invariant -/

/-- Keys on their way from an addition to a call. -/
def sent (s : Backlog) : List Key := (s.picked.map Prod.snd).toList ++ s.queue.channel

/-- Where a marked key can be. -/
def held (s : Backlog) : List Key := s.adding ++ s.sent

theorem sent_send (s : Backlog) (key : Key) : (s.send key).sent = s.sent ++ [key] :=
  (List.append_assoc ..).symm

structure Valid (s : Backlog) : Prop where
  /-- A marked key is in one place. -/
  marked : s.queue.marked.Perm s.held
  nodup : s.held.Nodup
  fresh : ∀ key ∈ s.sent, Fresh s.log key
  kept : Kept s.log s.queue.marked
  earned : Earned s.log
  counted : ∀ key, s.queue.failures.getD key 0 = UInt32.ofNat (streak key s.log)
  planned : (s.rung ++ s.timers).Perm (retries s.queue.backoff s.log)
  due : ∀ r ∈ s.timers, s.now ≤ r.due
  rang : ∀ r ∈ s.rung, r.due ≤ s.now

theorem valid_fresh (kind : Kind) (backoff : Backoff) : (Backlog.fresh kind backoff).Valid where
  marked := .nil
  nodup := .nil
  fresh := nofun
  kept := fun _ _ _ he => by simp [Backlog.fresh] at he
  earned := fun _ _ _ he => by simp [Backlog.fresh] at he
  counted := fun _ => rfl
  planned := .nil
  due := nofun
  rang := nofun

namespace Valid

theorem failureCount_eq (v : s.Valid) (key : Key) :
    s.queue.failureCount key = streak key s.log % UInt32.size := by
  rw [WorkQueue.failureCount, v.counted]
  rfl

theorem delay_eq (v : s.Valid) (key : Key) (b : Backoff) :
    b.delay (s.queue.failures.getD key 0 + 1).toNat = delayAfter b (streak key s.log + 1) := by
  rw [v.counted, ← UInt32.ofNat_one, ← UInt32.ofNat_add]
  rfl

theorem mem_marked (v : s.Valid) : k ∈ s.queue.marked ↔ k ∈ s.held := v.marked.mem_iff

theorem ask (v : s.Valid) (key : Key) : (s.ask key).Valid := by
  unfold Backlog.ask WorkQueue.mark
  by_cases hk : key ∈ s.queue.marked
  · simp only [WorkQueue.contains_iff.2 hk, if_true]
    refine ⟨v.marked, v.nodup, fun k hm => (v.fresh k hm).cons nofun,
      v.kept.cons ?_ fun _ => Or.inl, v.earned.cons nofun, v.counted, v.planned, v.due, v.rang⟩
    rintro k ⟨⟩
    exact hk
  · have hno : s.queue.contains key = false := by simp [WorkQueue.contains, hk]
    have hheld : key ∉ s.held := fun hm => hk (v.mem_marked.2 hm)
    have hperm : (s.adding ++ [key] ++ s.sent).Perm (s.held ++ [key]) := by
      rw [held, List.append_assoc, List.append_assoc]
      exact List.perm_append_comm.append_left _
    simp only [hno, Bool.false_eq_true, if_false]
    refine ⟨(v.marked.append_right _).trans hperm.symm, hperm.nodup_iff.2 ?_, v.fresh,
      v.kept.mono fun k => List.mem_append_left _, v.earned, v.counted, v.planned, v.due, v.rang⟩
    rw [List.nodup_append]
    refine ⟨v.nodup, List.nodup_cons.2 ⟨List.not_mem_nil, .nil⟩, fun a ha b hb hab => hheld ?_⟩
    rw [← List.mem_singleton.1 hb, ← hab]
    exact ha

theorem send (v : s.Valid) (hk : key ∈ s.adding) : (s.send key).Valid := by
  have hperm : (s.send key).held.Perm s.held := by
    calc (s.send key).held
      _ = s.adding.erase key ++ (s.sent ++ [key]) := by rw [held, sent_send]; rfl
      _ = s.adding.erase key ++ s.sent ++ [key] := (List.append_assoc ..).symm
      _ |>.Perm (key :: (s.adding.erase key ++ s.sent)) := List.perm_append_singleton ..
      _ |>.Perm s.held := (List.perm_cons_erase hk).symm.append_right _
  refine ⟨v.marked.trans hperm.symm, hperm.nodup_iff.2 v.nodup, ?_, v.kept.cons ?_ fun _ => Or.inl,
    v.earned.cons nofun, v.counted, v.planned, v.due, v.rang⟩
  · intro k hm
    rw [sent_send] at hm
    rcases List.mem_append.1 hm with hm | hm
    · exact (v.fresh k hm).cons nofun
    · rw [List.mem_singleton.1 hm]
      exact fresh_added _ _
  · rintro k ⟨⟩
    exact v.mem_marked.2 (List.mem_append_left _ hk)

theorem receive {q : WorkQueue} (v : s.Valid) (hp : s.picked = none)
    (hq : s.queue.receive = some (key, q)) :
    Valid { s with queue := q, picked := some (id, key) } := by
  obtain ⟨rest, hc, rfl⟩ := WorkQueue.receive_eq_some.1 hq
  have hsent : s.sent = key :: rest := by
    rw [sent, hp, hc]
    rfl
  have hheld : s.held = s.adding ++ key :: rest := by rw [held, hsent]
  have hn := v.nodup
  rw [hheld] at hn
  exact ⟨v.marked.trans (.of_eq hheld), hn, fun k hm => v.fresh k (hsent.symm ▸ hm), v.kept,
    v.earned, v.counted, v.planned, v.due, v.rang⟩

theorem start (v : s.Valid) (hp : s.picked = some (id, key)) : (s.start id key).Valid := by
  have hsent : s.sent = key :: s.queue.channel := by
    rw [sent, hp]
    rfl
  have hheld : s.held.Perm (key :: (s.adding ++ s.queue.channel)) := by
    rw [held, hsent]
    exact List.perm_middle
  obtain ⟨hout, hn⟩ := List.nodup_cons.1 (hheld.nodup_iff.1 v.nodup)
  have hmarked : (s.queue.marked.filter (· ≠ key)).Perm (s.adding ++ s.queue.channel) := by
    have hf := (v.marked.trans hheld).filter (· ≠ key)
    rw [List.filter_cons_of_neg (by simp)] at hf
    refine hf.trans (.of_eq (List.filter_eq_self.2 ?_))
    intro k hk
    rw [decide_eq_true_eq]
    rintro rfl
    exact hout hk
  refine ⟨hmarked, hn, ?_, v.kept.cons nofun ?_, v.earned.cons ?_, v.counted, v.planned, v.due,
    v.rang⟩
  · intro k hk
    refine (v.fresh k (hsent ▸ List.mem_cons_of_mem _ hk)).cons ?_
    rintro ⟨⟩
    exact hout (List.mem_append_right _ hk)
  · intro k hk
    by_cases he : k = key
    · exact Or.inr (he ▸ rfl)
    · exact Or.inl (List.mem_filter.2 ⟨hk, by simpa using he⟩)
  · rintro _ ⟨⟩
    exact v.fresh key (hsent ▸ List.mem_cons_self)

theorem complete (v : s.Valid) (id : Nat) (key : Key) (outcome : Except CycleError Unit) :
    (s.complete id key outcome).Valid := by
  have hfresh : ∀ k ∈ s.sent, Fresh (.ended key outcome s.now :: s.log) k :=
    fun k hk => (v.fresh k hk).cons nofun
  have hkept : Kept (.ended key outcome s.now :: s.log) s.queue.marked :=
    v.kept.cons nofun fun _ => Or.inl
  unfold Backlog.complete
  rw [WorkQueue.complete_eq, WorkQueue.finish_eq]
  cases hw : WorkQueue.isRetryable outcome with
  | true =>
    refine ⟨v.marked, v.nodup, hfresh, hkept, v.earned.cons nofun, ?_, ?_, ?_, v.rang⟩
    · intro k
      show (s.queue.failures.insert key _).getD k 0 = _
      rw [Table.getD, Table.get?_insert, streak, hw]
      by_cases hk : k = key
      · simp [hk, v.counted, UInt32.ofNat_add]
      · simp only [hk, Ne.symm hk, if_false, ← v.counted]
        rfl
    · simp only [retries, hw, if_true, ← v.delay_eq]
      exact List.perm_middle.trans (v.planned.cons _)
    · intro r hr
      rcases List.mem_cons.1 hr with rfl | hr
      · exact Nat.le_add_right _ _
      · exact v.due r hr
  | false =>
    refine ⟨v.marked, v.nodup, hfresh, hkept, v.earned.cons nofun, ?_, ?_, v.due, v.rang⟩
    · intro k
      show (s.queue.failures.erase key).getD k 0 = _
      rw [Table.getD, Table.get?_erase, streak, hw]
      by_cases hk : k = key
      · simp [hk]
      · simp only [hk, Ne.symm hk, if_false, ← v.counted]
        rfl
    · simp only [retries, hw]
      exact v.planned

theorem ring {r : Retry} (v : s.Valid) (hr : r ∈ s.timers) (hd : r.due ≤ s.now) :
    (s.ring r).Valid := by
  have hdue : r = ⟨r.key, s.now⟩ := by
    rw [Nat.le_antisymm (v.due r hr) hd]
  have hperm : (⟨r.key, s.now⟩ :: s.rung ++ s.timers.erase r).Perm (s.rung ++ s.timers) := by
    rw [← hdue]
    exact List.perm_middle.symm.trans ((List.perm_cons_erase hr).symm.append_left _)
  refine ask (s := { s with timers := s.timers.erase r, rung := ⟨r.key, s.now⟩ :: s.rung })
    ⟨v.marked, v.nodup, v.fresh, v.kept, v.earned, v.counted, hperm.trans v.planned,
      fun t ht => v.due t (List.mem_of_mem_erase ht), ?_⟩ r.key
  intro t ht
  rcases List.mem_cons.1 ht with rfl | ht
  · exact Nat.le_refl _
  · exact v.rang t ht

theorem step {a : Action} (v : s.Valid) (hs : s.step a = some s') : s'.Valid := by
  cases a with
  | enter workers =>
    cases hs
    exact ⟨v.marked, v.nodup, v.fresh, v.kept, v.earned, v.counted, v.planned, v.due, v.rang⟩
  | ask key =>
    cases hs
    exact v.ask key
  | send key =>
    obtain ⟨hk, hs⟩ := Option.ite_none_right_eq_some.1 hs
    cases hs
    exact v.send hk
  | receive id =>
    obtain ⟨hp, hs⟩ := Option.ite_none_left_eq_some.1 hs
    obtain ⟨⟨key, q⟩, hq, rfl⟩ := Option.map_eq_some_iff.1 hs
    exact v.receive (by simpa using hp) (WorkQueue.receive_of_claim hq)
  | start =>
    obtain ⟨⟨id, key⟩, hp, rfl⟩ := Option.map_eq_some_iff.1 hs
    exact v.start hp
  | complete id key outcome =>
    obtain ⟨-, hs⟩ := Option.ite_none_right_eq_some.1 hs
    cases hs
    exact v.complete id key outcome
  | wait time =>
    obtain ⟨hd, hs⟩ := Option.ite_none_right_eq_some.1 hs
    cases hs
    exact ⟨v.marked, v.nodup, v.fresh, v.kept, v.earned, v.counted, v.planned, hd,
      fun r hr => Nat.le_add_right_of_le (v.rang r hr)⟩
  | ring r =>
    obtain ⟨⟨hr, hd⟩, hs⟩ := Option.ite_none_right_eq_some.1 hs
    cases hs
    exact v.ring hr hd

theorem run {actions : List Action} (v : s.Valid) (hs : s.run actions = some s') : s'.Valid := by
  induction actions generalizing s with
  | nil =>
    cases hs
    exact v
  | cons a rest ih =>
    obtain ⟨s1, h1, hrest⟩ := Option.bind_eq_some_iff.1 hs
    exact ih (v.step h1) hrest

end Valid

theorem Reachable.valid (h : s.Reachable) : s.Valid := by
  obtain ⟨kind, backoff, actions, hrun⟩ := h
  exact (valid_fresh kind backoff).run hrun

/-! ## Nothing is lost and nothing is done twice -/

/-- While no half of an addition or a pick is missing, what the channel holds is what counts as
waiting, each key once. A key that was added waits still, or a call for it began later. A call
begins only for a key that was added since the call before. Failures in a row are counted in 32
bits, and each one that another try may help brings back its key once, after the delay for that
count. -/
theorem Reachable.nothing_lost_or_repeated (h : s.Reachable) :
    (s.adding = [] → s.picked = none →
      s.queue.channel.Nodup ∧ s.queue.size = s.queue.channel.length ∧
        ∀ key, key ∈ s.queue.channel ↔ s.queue.contains key = true) ∧
    (∀ key after before, s.log = after ++ .added key :: before →
      s.queue.contains key = true ∨ .started key ∈ after) ∧
    (∀ key after before, s.log = after ++ .started key :: before →
      ∃ since older, before = since ++ .added key :: older ∧ .started key ∉ since) ∧
    (∀ key, s.queue.failureCount key = streak key s.log % UInt32.size ∧
      (streak key s.log < UInt32.size → s.queue.failureCount key = streak key s.log)) ∧
    (s.rung ++ s.timers).Perm (retries s.queue.backoff s.log) ∧
    (∀ n, n < UInt32.size → delayAfter s.queue.backoff n = s.queue.backoff.delay n) ∧
    (∀ r ∈ s.timers, s.now ≤ r.due) ∧ (∀ r ∈ s.rung, r.due ≤ s.now) := by
  have v := h.valid
  have hcounted : ∀ key, streak key s.log < UInt32.size →
      s.queue.failureCount key = streak key s.log := by
    intro key hlt
    rw [v.failureCount_eq, Nat.mod_eq_of_lt hlt]
  refine ⟨?_, ?_, v.earned, fun key => ⟨v.failureCount_eq key, hcounted key⟩, v.planned,
    fun _ => delayAfter_of_lt s.queue.backoff, v.due, v.rang⟩
  · intro hadding hpicked
    have hheld : s.held = s.queue.channel := by
      rw [held, sent, hadding, hpicked]
      rfl
    have hmarked := v.marked
    have hn := v.nodup
    rw [hheld] at hmarked hn
    refine ⟨hn, hmarked.length_eq, fun key => ?_⟩
    rw [WorkQueue.contains_iff, hmarked.mem_iff]
  · intro key after before he
    rw [WorkQueue.contains_iff]
    exact v.kept key after before he

def webKey : Key := ⟨"shop", "web"⟩

/-- A key is added while it is being picked, fails while it waits again, and is added once more
when its delay is over. -/
def overlap : List Action :=
  [.enter 2, .ask webKey, .send webKey, .receive 0, .ask webKey, .start, .ask webKey, .send webKey,
    .complete 0 webKey (.error (.fetch .deployment webKey)), .receive 0, .start, .wait 5000000,
    .ring ⟨webKey, 5000000⟩, .send webKey]

theorem nothing_lost_or_repeated_overlap :
    ∃ s, (fresh .deployment .standard).run overlap = some s ∧ s.queue.channel = [webKey] ∧
      s.queue.contains webKey = true ∧ s.queue.failureCount webKey = 1 ∧
      (s.rung ++ s.timers).Perm [⟨webKey, 5000000⟩] := by
  have hrun : ∃ s, (fresh .deployment .standard).run overlap = some s ∧ s.adding = [] ∧
      s.picked = none ∧ s.queue.channel = [webKey] ∧ streak webKey s.log = 1 ∧
      retries s.queue.backoff s.log = [⟨webKey, 5000000⟩] :=
    ⟨_, rfl, rfl, rfl, rfl, rfl, rfl⟩
  obtain ⟨s, hs, hadding, hpicked, hchannel, hstreak, hretries⟩ := hrun
  have hr : s.Reachable := ⟨_, _, _, hs⟩
  obtain ⟨hwaiting, -, -, hcounted, hplanned, -⟩ := hr.nothing_lost_or_repeated
  obtain ⟨-, -, hmem⟩ := hwaiting hadding hpicked
  refine ⟨s, hs, hchannel, (hmem webKey).1 ?_, ?_, hretries ▸ hplanned⟩
  · rw [hchannel]
    exact List.mem_singleton_self _
  · rw [(hcounted webKey).1, hstreak]
    rfl

end Backlog

end Nodecast
