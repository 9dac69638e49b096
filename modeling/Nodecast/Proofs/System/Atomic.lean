import Nodecast.Proofs.System.Omission
import Nodecast.Proofs.System.Returns

/-!
# All or nothing

A cycle that returns events has committed them, counted them and pushed them all. A cycle that fails
has done nothing, and all goes on as if it had never begun.
-/

namespace Nodecast

variable {kind : Kind} {key : Key}

/-! ## Locks that are given back -/

/-- The call is over, and if others ask for the lock of the key, one of them has it. -/
def KeyedLock.Released (l : KeyedLock) (t : Nat) (key : Key) : Prop :=
  (∀ k, ¬l.Asks t k) ∧ ∀ s, l.Asks s key → ∃ r, r ≠ t ∧ l.Holds r key

theorem KeyedLock.Orderly.released {l : KeyedLock} (o : l.Orderly) {t : Nat} (h : l.Gone t)
    (key : Key) : l.Released t key := by
  refine ⟨h.2, fun s hs => ?_⟩
  obtain ⟨r, hr⟩ := o.exists_holds hs
  refine ⟨r, ?_, hr⟩
  rintro rfl
  exact h.2 key hr.asks

/-! ## Cycles that have returned -/

namespace Cycle

variable {y : Cycle} {outcome : Except CycleError (List Event)} {cached : Option Entry}
  {ms : List Move} {ds : List Deed}

theorem ticket?_of_outcome (h : y.outcome? = some outcome) : y.ticket? = none := by
  rw [ticket?, outcome?_eq_some.1 h]

theorem Accounts.completed {events : List Event} (h : y.Accounts kind cached ms ds)
    (ho : y.outcome? = some (.ok events)) : Completed kind y.key ms events ds := by
  rwa [Accounts, outcome?_eq_some.1 ho] at h

theorem Accounts.nothing {e : CycleError} (h : y.Accounts kind cached ms ds)
    (ho : y.outcome? = some (.error e)) : ds = [] := by
  rwa [Accounts, outcome?_eq_some.1 ho] at h

end Cycle

namespace World

variable {w w0 w' v : World} {x : Omission} {i : Nat} {t : Task} {y z : Cycle} {c : Collector}
  {as : List Action}

/-! ## The beginning -/

theorem does_beginCycle (hc : w.collectors.get? kind = some c) :
    Does w kind key [] (w.beginCycle kind key c) where
  finds := fun _ hd => nomatch hd
  hub := rfl
  mine := by
    intro d hd
    rw [hc, Option.some.injEq] at hd
    subst hd
    refine ⟨(c.beginCycle key).2, ?_, rfl, rfl⟩
    rw [beginCycle, get?_collectors_advance, if_pos rfl]
  others := by
    intro k hk
    rw [beginCycle, get?_collectors_advance, if_neg hk]
  single := Nat.zero_le _

theorem follows_beginCycle : (w.beginCycle kind key c).Follows w.nextTask kind key [] [] := by
  refine ⟨{ kind, activity := .cycle (c.beginCycle key).1, since := w.hub.nextGeneration }, _,
    (c.beginCycle key).2, ?_, rfl, rfl, rfl, ?_, ⟨rfl, rfl⟩, fun _ => ?_⟩
  · rw [beginCycle, get?_tasks_advance, if_pos rfl]
  · rw [beginCycle, get?_collectors_advance, if_pos rfl]
  · exact KeyedLock.spot?_request.trans (if_pos (KeyedLock.request_ticket c.locks key))

/-! ## Other cycles -/

theorem Alike.outcome (A : w.Alike x v) (hi : i ≠ x.task) (ht : w.tasks.get? i = some t)
    (ha : t.activity = .cycle z) : ∃ u z', v.tasks.get? (fore x.task i) = some u ∧
      u.kind = t.kind ∧ u.activity = .cycle z' ∧ z'.key = z.key ∧ z'.outcome? = z.outcome? := by
  rw [← past_fore hi] at ht
  obtain ⟨u, hu, hkind, hactivity⟩ := A.task ht
  rw [ha] at hactivity
  obtain ⟨z', hz', rfl⟩ := Activity.eq_rename_cycle hactivity
  exact ⟨u, z', hu, hkind, hz', rfl, rfl⟩

/-! ## Every cycle -/

/-- From the beginning of a cycle on, whatever it and the others are told: it returns when the calls
before its own are over. If it succeeds, it has committed its step and counted and pushed every
event. If it fails, it has done nothing, and without it the run goes the same way. -/
theorem Reachable.all_or_nothing (h : Reachable w) (hbegin : w.step (.reconcile kind key) = some w0)
    (hrun : w0.run as = some w') : ∃ t y c ds, w'.tasks.get? w.nextTask = some t ∧
      t.kind = kind ∧ t.activity = .cycle y ∧ y.key = key ∧ w'.collectors.get? kind = some c ∧
      Does w kind key [] w0 ∧ Did w0 w.nextTask kind key as ds w' ∧
      ((∀ s, s < y.ticket → ¬c.locks.Asks s key) → ∀ reply : Cycle → Cycle.Move,
        (∀ z : Cycle, z.outcome? = none → z.Takes (reply z)) → w'.Returns w.nextTask reply) ∧
      (∀ outcome, y.outcome? = some outcome → c.locks.Released y.ticket key) ∧
      (∀ events, y.outcome? = some (.ok events) →
        Cycle.Completed kind key (movesOf w.nextTask as) events ds) ∧
      ∀ e, y.outcome? = some (.error e) → ds = [] ∧
        ∃ v, w.run (Omission.run ⟨w.nextTask, kind, y.ticket⟩ as) = some v ∧
          w'.Alike ⟨w.nextTask, kind, y.ticket⟩ v ∧
          ∀ {i t z}, i ≠ w.nextTask → w'.tasks.get? i = some t → t.activity = .cycle z →
            ∃ u z', v.tasks.get? (fore w.nextTask i) = some u ∧ u.kind = t.kind ∧
              u.activity = .cycle z' ∧ z'.key = z.key ∧ z'.outcome? = z.outcome? := by
  obtain ⟨c0, hc0, rfl⟩ := Option.map_eq_some_iff.1 hbegin
  have h0 : Reachable (w.beginCycle kind key c0) := h.step _ hbegin
  have h' : Reachable w' := h0.run hrun
  obtain ⟨ds, hdid, t, y, c, ht, rfl, ha, rfl, hc, haccounts, hqueued⟩ :=
    follows_beginCycle.run h0 .start hrun
  rw [List.nil_append] at hdid haccounts
  refine ⟨t, y, c, ds, ht, rfl, ha, rfl, hc, does_beginCycle hc0, hdid, ?_, ?_, ?_, ?_⟩
  · intro hfirst reply hreply
    refine returns hreply ht ha hc fun hs => ?_
    exact (h'.orderly hc).granted_iff.2 ⟨_, hqueued hs, hfirst⟩
  · intro outcome ho
    exact (h'.orderly hc).released (h'.freed ht ha (Cycle.ticket?_of_outcome ho) hc) y.key
  · exact fun events ho => haccounts.completed ho
  · intro e ho
    have hnone := haccounts.nothing ho
    obtain ⟨v, hv, A, -, hhas⟩ :=
      (h.alike hc0 y.key).run h0 h (has_beginCycle w t.kind y.key c0) hdid hnone
    have hticket : c0.locks.nextTicket = y.ticket := (hhas.ticket_eq ht ha).symm
    rw [hticket] at hv A
    exact ⟨hnone, v, hv, A, fun hi ht ha => A.outcome hi ht ha⟩

def shopKey : Key := ⟨"default", "shop"⟩

/-- A cycle is cancelled while it waits for the nodes. The next one succeeds. -/
def abandonment : List Action :=
  let object : Tracked := { metadata := { uid := some "u1" } }
  [.cycle 0 (.lock false), .cycle 0 (.fetch (.ok (some object))),
    .reconcile .deployment shopKey, .cycle 0 .cancel,
    .cycle 1 (.lock false), .cycle 1 (.fetch (.ok (some object))),
    .cycle 1 (.resolve (.ok (.ofList ["a"]))), .cycle 1 (.commit false), .cycle 1 .push,
    .cycle 1 .finish]

/-- The cycle is cancelled as long as it can be. -/
def retreat (y : Cycle) : Cycle.Move :=
  match y.stage with
  | .locking => .lock true
  | .fetching | .resolving .. => .cancel
  | .committing .. => .commit true
  | .pushing _ (_ :: _) => .push
  | .offering .. => .offer
  | .pushing _ [] | .ended _ => .finish

theorem takes_retreat (h : y.outcome? = none) : y.Takes (retreat y) := by
  unfold Cycle.outcome? at h
  unfold Cycle.Takes retreat
  rcases hs : y.stage with _ | _ | _ | _ | ⟨events, _ | ⟨e, rest⟩⟩ | _ | outcome
  case ended => simp [hs] at h
  all_goals trivial

theorem all_or_nothing_abandonment : ∃ w0 w' x v u z events,
    (start {}).step (.reconcile .deployment shopKey) = some w0 ∧ w0.Returns 0 retreat ∧
      w0.run abandonment = some w' ∧ Did w0 0 .deployment shopKey abandonment [] w' ∧
      (start {}).run (Omission.run x abandonment) = some v ∧ v.tasks.get? 0 = some u ∧
      u.activity = .cycle z ∧ z.outcome? = some (.ok events) ∧ events.map Event.node = ["a"] := by
  have hrun : ∃ w0 t0 y0 w' t y e t1 z events,
      (start {}).step (.reconcile .deployment shopKey) = some w0 ∧ w0.tasks.get? 0 = some t0 ∧
      t0.activity = .cycle y0 ∧ y0.ticket = 0 ∧
      w0.run abandonment = some w' ∧ w'.tasks.get? 0 = some t ∧ t.activity = .cycle y ∧
      y.outcome? = some (.error e) ∧ w'.tasks.get? 1 = some t1 ∧ t1.activity = .cycle z ∧
      z.outcome? = some (.ok events) ∧ events.map Event.node = ["a"] :=
    ⟨_, _, _, _, _, _, _, _, _, _, rfl, rfl, rfl, rfl, rfl, rfl, rfl, rfl, rfl, rfl, rfl, rfl⟩
  obtain ⟨w0, t0, y0, w', t, y, e, t1, z, events, hbegin, ht0, ha0, hticket, hr, ht, ha, he, ht1,
    hz, hevents, hnodes⟩ := hrun
  have hfirst : (start {}).nextTask = 0 := rfl
  have hnil : w0.run [] = some w0 := rfl
  obtain ⟨t0', y0', c0, ds0, ht0', -, ha0', -, -, -, -, hreturns, -⟩ :=
    (Reachable.start {}).all_or_nothing hbegin hnil
  rw [hfirst] at ht0' hreturns
  rw [(cycle_unique ht0 ha0 ht0' ha0').2, hticket] at hreturns
  have hback := hreturns (fun s hs => absurd hs (Nat.not_lt_zero s)) retreat
    fun _ h => takes_retreat h
  obtain ⟨t', y', c, ds, ht', -, ha', -, -, -, hdid, -, -, -, herror⟩ :=
    (Reachable.start {}).all_or_nothing hbegin hr
  rw [hfirst] at ht' hdid herror
  rw [← (cycle_unique ht ha ht' ha').2] at he
  obtain ⟨rfl, v, hv, -, hothers⟩ := herror e he
  obtain ⟨u, z', hu, -, hz', -, ho⟩ := hothers (by decide) ht1 hz
  exact ⟨w0, w', _, v, u, z', events, hbegin, hback, hr, hdid, hv, hu, hz', ho.trans hevents,
    hnodes⟩

end World

end Nodecast
