import Nodecast.Proofs.Triggers.Services
import Nodecast.Settings

/-!
# Keys that come to wait

What promises a trigger goes on to do so, whatever happens beside it, until the trigger has come. So
the key waits at some time before all calls of handlers are over.
-/

namespace Nodecast

variable {who : Census} {kind k : Kind} {key : Key} {t : Tracked} {os : List Tracked}

namespace Lookout

variable {w w' w₂ : Lookout} {a : Action} {as : List Action}

/-! ## What holds between steps -/

structure Sound (w : Lookout) : Prop where
  linked : w.index.Linked
  /-- Only one handler touches the registry of Services. -/
  foreign : ∀ {kind x}, kind ≠ .service → x ∈ w.restOf kind → x.touchesServices = false
  orderly : ∀ {n rest}, w.calls.get? .service = some ⟨n, rest⟩ → Orderly w.router n rest

theorem Sound.proceed (S : w.Sound) {d : Daemon} {n : Notice} {rest : List Reaction}
    (hlinked : d.index.Linked)
    (hforeign : kind ≠ .service → d.router.services = w.router.services ∧
      ∀ x ∈ rest, x.touchesServices = false)
    (horderly : kind = .service → rest = [] ∨ Orderly d.router n rest) :
    (w.proceed kind d n rest).Sound where
  linked := hlinked
  foreign := by
    intro k x hk hx
    rw [restOf_proceed] at hx
    split at hx
    · next e => exact (hforeign (e ▸ hk)).2 x hx
    · exact S.foreign hk hx
  orderly := by
    intro m rest' hc
    by_cases hk : kind = .service
    · subst hk
      rw [get?_proceed_self] at hc
      split at hc
      · contradiction
      · next hne =>
        cases hc
        exact (horderly rfl).resolve_left hne
    · rw [get?_proceed _ _ _ _ _ (Ne.symm hk)] at hc
      refine (S.orderly hc).of_knows fun key hkey => ?_
      show key.name ∈ d.router.services.under key.space
      rw [(hforeign hk).1]
      exact hkey

theorem Sound.step (S : w.Sound) (h : w.step a = some w') : w'.Sound := by
  cases step_steps h with
  | call kind n hnone =>
    refine S.proceed S.linked ?_ ?_
    · exact fun hk => ⟨rfl, fun x hx => Notice.touchesServices_reactions hk hx⟩
    · rintro rfl
      exact orderly_reactions _ n
  | go kind n r rest hc =>
    have hrest := restOf_eq hc
    refine S.proceed (Reaction.linked_step S.linked r) ?_ ?_
    · intro hk
      have hr : r.touchesServices = false := S.foreign hk (hrest ▸ List.mem_cons_self)
      refine ⟨Reaction.services_step hr _, fun x hx => ?_⟩
      rcases List.mem_append.1 hx with hx | hx
      · exact Reaction.touchesServices_of_isTrigger (Reaction.isTrigger_of_mem_step hx)
      · exact S.foreign hk (hrest ▸ List.mem_cons_of_mem _ hx)
    · rintro rfl
      exact (S.orderly hc).step
  | other hub collectors queues _ =>
    exact ⟨S.linked, S.foreign, fun hc => (S.orderly hc).of_knows fun _ hk => hk⟩

/-- All owner references are true that are indexed or are going to be. -/
structure Truthful (w : Lookout) (who : Census) : Prop where
  index : w.index.IsTrue who
  rest : ∀ {kind x}, x ∈ w.restOf kind → x.IsTrue who

def Action.IsTrue (who : Census) : Action → Prop
  | .call kind n => ∀ r ∈ n.reactions kind, r.IsTrue who
  | _ => True

theorem Truthful.step (T : w.Truthful who) (S : w.Sound) (ha : a.IsTrue who)
    (h : w.step a = some w') : w'.Truthful who := by
  cases step_steps h with
  | call kind n _ =>
    refine ⟨T.index, ?_⟩
    intro k x hx
    rw [restOf_proceed] at hx
    split at hx
    · exact ha x hx
    · exact T.rest hx
  | go kind n r rest hc =>
    have hrest := restOf_eq hc
    have hr : r.IsTrue who := T.rest (hrest ▸ List.mem_cons_self)
    refine ⟨hr.step S.linked T.index, ?_⟩
    intro k x hx
    rw [restOf_proceed] at hx
    split at hx
    · rcases List.mem_append.1 hx with hx | hx
      · exact Reaction.isTrue_of_isTrigger (Reaction.isTrigger_of_mem_step hx)
      · exact T.rest (hrest ▸ List.mem_cons_of_mem _ hx)
    · exact T.rest hx
  | other hub collectors queues _ => exact ⟨T.index, T.rest⟩

/-- The states that notices with true owner references lead to. -/
inductive Reachable (who : Census) : Lookout → Prop where
  | start (s : Settings) : Reachable who { s.daemon with }
  | step {w w' : Lookout} (a : Action) : Reachable who w → a.IsTrue who → w.step a = some w' →
      Reachable who w'

theorem Reachable.run (h : Reachable who w) (has : ∀ a ∈ as, a.IsTrue who)
    (hr : w.run as = some w') : Reachable who w' := by
  induction as generalizing w with
  | nil =>
    cases hr
    exact h
  | cons a rest ih =>
    obtain ⟨w1, h1, hr⟩ := Option.bind_eq_some_iff.1 hr
    have ha := has a List.mem_cons_self
    exact ih (.step a h ha h1) (fun b hb => has b (List.mem_cons_of_mem _ hb)) hr

theorem daemon_index (s : Settings) : s.daemon.index = {} := by
  have hindex : ∀ d : Daemon, d.index = {} → ∀ kinds : List Kind,
      (kinds.foldl (fun d kind => d.enable kind s.backoff) d).index = {} := by
    intro d hd kinds
    induction kinds generalizing d with
    | nil => exact hd
    | cons kind rest ih => exact ih (d.enable kind s.backoff) hd
  exact hindex _ rfl s.enabled

theorem Reachable.sound (h : Reachable who w) : w.Sound ∧ w.Truthful who := by
  induction h with
  | start s =>
    refine ⟨⟨?_, fun _ hx => (nomatch hx), fun hc => (nomatch hc)⟩, ⟨?_, fun hx => (nomatch hx)⟩⟩
    · show s.daemon.index.Linked
      rw [daemon_index]
      exact PodIndex.linked_empty
    · show s.daemon.index.IsTrue who
      rw [daemon_index]
      exact ⟨fun hp => (nomatch hp), fun hs => (nomatch hs)⟩
  | step a _ ha hs ih => exact ⟨ih.1.step hs, ih.2.step ih.1 ha hs⟩

/-! ## Keys that come to wait -/

/-- The action adds the key to the queue of the kind, if it does not wait there already. -/
def Adds (w : Lookout) (a : Action) (kind : Kind) (key : Key) : Prop :=
  ∃ k n rest, a = .go k ∧ w.calls.get? k = some ⟨n, .trigger kind key :: rest⟩

theorem isEnabled_step (h : w.step a = some w') (kind : Kind) :
    w'.router.isEnabled kind = w.router.isEnabled kind := by
  cases step_steps h with
  | call => rfl
  | go k n r rest hc => exact Reaction.isEnabled_step _ _ _
  | other hub collectors queues hkeys =>
    show queues.contains kind = w.router.queues.contains kind
    rw [Bool.eq_iff_iff, Table.contains_iff, Table.contains_iff, hkeys]

theorem Adds.waits (h : w.Adds a kind key) (hon : w.router.isEnabled kind = true)
    (hs : w.step a = some w') : w'.router.waits kind key = true := by
  obtain ⟨k, n, rest, rfl, hc⟩ := h
  cases step_steps hs with
  | go _ _ _ _ hc' =>
    rw [hc] at hc'
    cases hc'
    obtain ⟨q, hq⟩ := Option.isSome_iff_exists.1 hon
    show (w.router.trigger kind key).waits kind key = true
    rw [Router.waits_iff (Router.get?_trigger hq key), WorkQueue.mem_marked_add]
    exact Or.inl rfl

/-- In the run there is a step after which the key waits. It was added then or waited already. -/
def Triggers (w : Lookout) (as : List Action) (kind : Kind) (key : Key) : Prop :=
  ∃ before a after v v', as = before ++ a :: after ∧ w.run before = some v ∧
    v.step a = some v' ∧ v.Adds a kind key ∧ v'.router.waits kind key = true

theorem run_cons (hs : w.step a = some w') (as : List Action) : w.run (a :: as) = w'.run as := by
  simp [run, hs]

theorem Triggers.cons (h : w'.Triggers as kind key) (hs : w.step a = some w') :
    w.Triggers (a :: as) kind key := by
  obtain ⟨before, b, after, v, v', rfl, hv, hb, hadds, hwaits⟩ := h
  exact ⟨a :: before, b, after, v, v', rfl, (run_cons hs before).trans hv, hb, hadds, hwaits⟩

/-- What a call still has to do promises a trigger of the key. -/
def Owes (w : Lookout) (kind : Kind) (key : Key) : Prop :=
  ∃ k, Reaction.Promises w.index kind key (w.restOf k)

theorem promises_ne_nil {i : PodIndex} {rs : List Reaction} (h : Reaction.Promises i kind key rs) :
    rs ≠ [] := by
  rintro rfl
  rcases h with h | ⟨-, uid, hu, -⟩ <;> contradiction

theorem owes_of_mem (h : Reaction.trigger kind key ∈ w.restOf k) : w.Owes kind key := ⟨k, .inl h⟩

theorem owes_proceed {d : Daemon} {n : Notice} {rest : List Reaction}
    (h : Reaction.trigger kind key ∈ rest) : (w.proceed k d n rest).Owes kind key := by
  refine owes_of_mem (k := k) ?_
  rw [restOf_proceed_self]
  exact h

theorem Owes.step (h : w.Owes kind key) (S : w.Sound) (hs : w.step a = some w') :
    w.Adds a kind key ∨ w'.Owes kind key := by
  obtain ⟨k, hp⟩ := h
  cases step_steps hs with
  | call kind' n hnone =>
    have hne : k ≠ kind' := by
      rintro rfl
      obtain ⟨m, hm⟩ := get?_of_restOf_ne_nil (promises_ne_nil hp)
      rw [hnone] at hm
      contradiction
    refine Or.inr ⟨k, ?_⟩
    rw [restOf_proceed_of_ne _ _ _ _ hne]
    exact hp
  | go kind' n r rest hc =>
    have howes : Reaction.trigger kind key ∈ (r.step w.toDaemon).2 →
        (w.proceed kind' (r.step w.toDaemon).1 n ((r.step w.toDaemon).2 ++ rest)).Owes kind key :=
      fun hmem => owes_proceed (List.mem_append_left _ hmem)
    by_cases hk : k = kind'
    · subst hk
      rw [restOf_eq hc] at hp
      rcases hp.head with rfl | hmem | hp
      · exact Or.inl ⟨k, n, rest, rfl, hc⟩
      · exact Or.inr (howes hmem)
      · rcases hp.step S.linked r with hp | hmem
        · refine Or.inr ⟨k, ?_⟩
          rw [restOf_proceed_self]
          exact hp.mono (List.subset_append_right _ _)
        · exact Or.inr (howes hmem)
    · -- Another handler steps, which can change where the index leads.
      rcases hp.step S.linked r with hp | hmem
      · refine Or.inr ⟨k, ?_⟩
        rw [restOf_proceed_of_ne _ _ _ _ hk]
        exact hp
      · exact Or.inr (howes hmem)
  | other hub collectors queues _ => exact Or.inr ⟨k, hp⟩

/-- No call of a handler is under way. -/
def IsAtRest (w : Lookout) : Prop := ∀ kind, w.calls.get? kind = none

theorem IsAtRest.restOf_eq_nil (h : w.IsAtRest) (kind : Kind) : w.restOf kind = [] := by
  simp [restOf, h kind]

theorem Owes.triggers (h : w.Owes kind key) (S : w.Sound) (hon : w.router.isEnabled kind = true)
    (hrun : w.run as = some w₂) (hrest : w₂.IsAtRest) : w.Triggers as kind key := by
  induction as generalizing w with
  | nil =>
    cases hrun
    obtain ⟨k, hp⟩ := h
    exact absurd (hrest.restOf_eq_nil k) (promises_ne_nil hp)
  | cons a rest ih =>
    obtain ⟨w', hs, hrun⟩ := Option.bind_eq_some_iff.1 hrun
    rcases h.step S hs with hadds | h
    · exact ⟨[], a, rest, w, w', rfl, rfl, hs, hadds, hadds.waits hon hs⟩
    · exact (ih h (S.step hs) ((isEnabled_step hs kind).trans hon) hrun).cons hs

end Lookout

end Nodecast
