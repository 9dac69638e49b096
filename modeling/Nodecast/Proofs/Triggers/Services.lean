import Nodecast.Proofs.Triggers.Calls

/-!
# Known Services

Only the handler of Services changes which Services are known. Whenever it forgets a Service that it
is not to forget for good, it triggers the Service later in the same call.
-/

namespace Nodecast

variable {key k : Key} {d : Daemon} {x : Reaction} {rest : List Reaction} {n : Notice}

namespace Router

variable {r : Router}

def Knows (r : Router) (key : Key) : Prop := key.name ∈ r.services.under key.space

theorem knows_registerService : (r.registerService k).Knows key ↔ r.Knows key ∨ key = k := by
  obtain ⟨space, name⟩ := key
  obtain ⟨space', name'⟩ := k
  unfold Knows registerService
  rw [Buckets.mem_under_link, Key.mk.injEq]

theorem knows_unregisterService :
    (r.unregisterService k).Knows key ↔ r.Knows key ∧ key ≠ k := by
  obtain ⟨space, name⟩ := key
  obtain ⟨space', name'⟩ := k
  unfold Knows unregisterService
  rw [Buckets.mem_under_unlink, ne_eq, Key.mk.injEq]

theorem knows_step (h : x.touchesServices = false) (d : Daemon) (key : Key) :
    (x.step d).1.router.Knows key ↔ d.router.Knows key := by
  unfold Knows
  rw [Reaction.services_step h]

theorem mem_servicesIn {space name : String} :
    name ∈ r.servicesIn space ↔ r.Knows ⟨space, name⟩ :=
  (List.mergeSort_perm _ _).mem_iff

end Router

/-! ## The handler of Services -/

namespace Notice

/-- The Services that the notice shows to be there. -/
def brought : Notice → List Key
  | applied o => keysOf [o]
  | deleted _ => []
  | restarted os => keysOf os

/-- The Service is missing from a complete list. -/
def Misses (n : Notice) (key : Key) : Prop := ∃ os, n = restarted os ∧ key ∉ keysOf os

theorem keysOf_single (o : Tracked) : keysOf [o] = o.metadata.key?.toList := by
  unfold keysOf
  cases h : o.metadata.key? <;> simp [h]

end Notice

/-- How far the handler of Services has come with a notice. -/
inductive Orderly (r : Router) : Notice → List Reaction → Prop where
  | register {o : Tracked} {key : Key} : o.metadata.key? = some key →
      Orderly r (.applied o) [.registerService key, .trigger .service key]
  | unregister {o : Tracked} {key : Key} : o.metadata.key? = some key →
      Orderly r (.deleted o) [.unregisterService key, .trigger .service key]
  | tell {n : Notice} {key : Key} : n.about? = some key → Orderly r n [.trigger .service key]
  | clear (os : List Tracked) : Orderly r (.restarted os)
      (.clearServices :: ((Notice.keysOf os).map .registerService ++
        Reaction.resync .service (Notice.keysOf os)))
  | list {os : List Tracked} {done todo : List Key} : Notice.keysOf os = done ++ todo →
      (∀ k ∈ done, r.Knows k) → Orderly r (.restarted os)
        (todo.map .registerService ++ Reaction.resync .service (Notice.keysOf os))
  | sync {os : List Tracked} {rest : List Reaction} : (∀ k ∈ Notice.keysOf os, r.Knows k) →
      (∀ x ∈ rest, x.isTrigger = true) → Orderly r (.restarted os) rest

theorem trigger_mem_resync {keys : List Key} (h : key ∈ keys) :
    .trigger .service key ∈ Reaction.resync .service keys :=
  List.mem_append_left _ (List.mem_map_of_mem h)

theorem orderly_reactions (r : Router) (n : Notice) :
    n.serviceReactions = [] ∨ Orderly r n n.serviceReactions := by
  cases n with
  | applied o =>
    simp only [Notice.serviceReactions, Notice.keysOf_single]
    cases hk : o.metadata.key? with
    | none => exact Or.inl rfl
    | some key => exact Or.inr (.register hk)
  | deleted o =>
    simp only [Notice.serviceReactions, Notice.keysOf_single]
    cases hk : o.metadata.key? with
    | none => exact Or.inl rfl
    | some key => exact Or.inr (.unregister hk)
  | restarted os => exact Or.inr (.clear os)

namespace Orderly

theorem of_knows {r r' : Router} (h : Orderly r n rest) (hr : ∀ k, r.Knows k → r'.Knows k) :
    Orderly r' n rest := by
  cases h with
  | register ho => exact .register ho
  | unregister ho => exact .unregister ho
  | tell ho => exact .tell ho
  | clear os => exact .clear os
  | list hkeys hdone => exact .list hkeys fun k hk => hr k (hdone k hk)
  | sync hknown htrigger => exact .sync (fun k hk => hr k (hknown k hk)) htrigger

theorem sync_step {os : List Tracked} (hknown : ∀ k ∈ Notice.keysOf os, d.router.Knows k)
    (htrigger : ∀ y ∈ x :: rest, y.isTrigger = true) :
    Orderly (x.step d).1.router (.restarted os) ((x.step d).2 ++ rest) := by
  have hx := Reaction.touchesServices_of_isTrigger (htrigger x List.mem_cons_self)
  refine .sync (fun k hk => (Router.knows_step hx d k).2 (hknown k hk)) ?_
  intro y hy
  rcases List.mem_append.1 hy with hy | hy
  · exact Reaction.isTrigger_of_mem_step hy
  · exact htrigger y (List.mem_cons_of_mem _ hy)

theorem step (h : Orderly d.router n (x :: rest)) :
    (x.step d).2 ++ rest = [] ∨ Orderly (x.step d).1.router n ((x.step d).2 ++ rest) := by
  generalize hl : x :: rest = l at h
  cases h with
  | register hk =>
    cases hl
    exact Or.inr (.tell hk)
  | unregister hk =>
    cases hl
    exact Or.inr (.tell hk)
  | tell hk =>
    cases hl
    exact Or.inl rfl
  | clear os =>
    cases hl
    exact Or.inr (.list (List.nil_append _).symm (by simp))
  | @list os done todo hkeys hdone =>
    right
    cases todo with
    | nil =>
      rw [List.append_nil] at hkeys
      refine sync_step (fun k hk => hdone k (hkeys ▸ hk)) ?_
      rw [hl]
      exact fun y hy => Reaction.isTrigger_resync hy
    | cons k todo =>
      cases hl
      have hkeys' : Notice.keysOf os = (done ++ [k]) ++ todo := by simp [hkeys]
      refine .list hkeys' ?_
      intro k' hk'
      show (d.router.registerService k).Knows k'
      rw [Router.knows_registerService]
      rcases List.mem_append.1 hk' with hk' | hk'
      · exact Or.inl (hdone k' hk')
      · exact Or.inr (List.mem_singleton.1 hk')
  | sync hknown htrigger =>
    subst hl
    exact Or.inr (sync_step hknown htrigger)

theorem brings {r : Router} (h : Orderly r n rest) (hk : key ∈ n.brought) :
    r.Knows key ∨ .trigger .service key ∈ rest := by
  cases h with
  | register ho =>
    rw [Notice.brought, Notice.keysOf_single, ho, Option.mem_toList, Option.some.injEq] at hk
    simp [hk]
  | unregister ho => contradiction
  | @tell n key' ho =>
    cases n with
    | applied o =>
      have ho' : o.metadata.key? = some key' := ho
      rw [Notice.brought, Notice.keysOf_single, ho', Option.mem_toList, Option.some.injEq] at hk
      simp [hk]
    | deleted o => contradiction
    | restarted os => contradiction
  | clear os =>
    exact Or.inr (List.mem_cons_of_mem _ (List.mem_append_right _ (trigger_mem_resync hk)))
  | list hkeys hdone => exact Or.inr (List.mem_append_right _ (trigger_mem_resync hk))
  | sync hknown htrigger => exact Or.inl (hknown key hk)

/-- A known Service stays known or is to be triggered, unless it is missing from a complete list. -/
theorem keeps (h : Orderly d.router n (x :: rest)) (hknown : d.router.Knows key)
    (hmiss : ¬n.Misses key) :
    (x.step d).1.router.Knows key ∨ .trigger .service key ∈ rest := by
  by_cases hx : x.touchesServices = true
  · generalize hl : x :: rest = l at h
    cases h with
    | register ho =>
      cases hl
      exact Or.inl (Router.knows_registerService.2 (Or.inl hknown))
    | @unregister o key' ho =>
      cases hl
      by_cases hk : key = key'
      · simp [hk]
      · exact Or.inl (Router.knows_unregisterService.2 ⟨hknown, hk⟩)
    | tell ho =>
      cases hl
      contradiction
    | clear os =>
      cases hl
      have hlisted : key ∈ Notice.keysOf os :=
        Classical.byContradiction fun hno => hmiss ⟨os, rfl, hno⟩
      exact Or.inr (List.mem_append_right _ (trigger_mem_resync hlisted))
    | @list os done todo hkeys hdone =>
      cases todo with
      | nil =>
        have hmem : x ∈ x :: rest := List.mem_cons_self
        rw [hl] at hmem
        rw [Reaction.touchesServices_of_isTrigger (Reaction.isTrigger_resync hmem)] at hx
        contradiction
      | cons k todo =>
        cases hl
        exact Or.inl (Router.knows_registerService.2 (Or.inl hknown))
    | sync _ htrigger =>
      rw [Reaction.touchesServices_of_isTrigger (htrigger x (hl ▸ List.mem_cons_self))] at hx
      contradiction
  · exact Or.inl ((Router.knows_step (by simpa using hx) d key).2 hknown)

end Orderly

end Nodecast
