import Nodecast.Proofs.Triggers.Waiting

/-!
# No object is forgotten

When the index gives an object other nodes than before, the object comes to wait in the queue of its
kind before all calls of handlers are over. A Service is let go only if a relist finds it gone.
-/

namespace Nodecast.Lookout

open Reaction

variable {who : Census} {kind k : Kind} {key : Key} {t : Tracked} {os : List Tracked}
  {w w' w₁ w₂ : Lookout} {a : Action} {as : List Action}

theorem call_ne_of_restOf (h : w.restOf k ≠ []) (hs : w.step a = some w') (n : Notice) :
    a ≠ .call k n := by
  rintro rfl
  obtain ⟨m, hm⟩ := get?_of_restOf_ne_nil h
  cases step_steps hs with
  | call _ _ hnone =>
    rw [hnone] at hm
    contradiction

theorem notice_of_proceed {d : Daemon} {n m : Notice} {rest rest₀ rest' : List Reaction}
    (hc : w.calls.get? kind = some ⟨n, rest⟩)
    (h : (w.proceed kind d n rest₀).calls.get? k = some ⟨m, rest'⟩) :
    ∃ rest, w.calls.get? k = some ⟨m, rest⟩ := by
  by_cases hk : k = kind
  · subst hk
    rw [get?_proceed_self] at h
    split at h
    · contradiction
    · cases h
      exact ⟨rest, hc⟩
  · rw [get?_proceed _ _ _ _ _ hk] at h
    exact ⟨rest', h⟩

/-! ## Services that are about to be looked up -/

/-- A call is to trigger all known Services, and the Service is known and stays so for now. -/
structure Offers (w : Lookout) (k : Kind) (key : Key) : Prop where
  pending : triggerServices key.space ∈ w.restOf k
  knows : w.router.Knows key
  lists : ∀ {n rest}, w.calls.get? .service = some ⟨n, rest⟩ → ¬n.Misses key

theorem Offers.step (h : w.Offers k key) (S : w.Sound) (hs : w.step a = some w') :
    w'.Owes .service key ∨ w'.Offers k key ∨
      ∃ os, a = .call .service (.restarted os) ∧ key ∉ Notice.keysOf os := by
  have hne := call_ne_of_restOf (List.ne_nil_of_mem h.pending) hs
  cases step_steps hs with
  | call kind n hnone =>
    have hk : k ≠ kind := fun e => hne n (e ▸ rfl)
    have hpending : triggerServices key.space ∈
        (w.proceed kind w.toDaemon n (n.reactions kind)).restOf k := by
      rw [restOf_proceed_of_ne _ _ _ _ hk]
      exact h.pending
    by_cases hservice : kind = .service
    · subst hservice
      by_cases hmiss : n.Misses key
      · obtain ⟨os, rfl, hno⟩ := hmiss
        exact Or.inr (Or.inr ⟨os, rfl, hno⟩)
      · refine Or.inr (Or.inl ⟨hpending, h.knows, ?_⟩)
        intro m rest hc
        rw [get?_proceed_self] at hc
        split at hc
        · contradiction
        · cases hc
          exact hmiss
    · refine Or.inr (Or.inl ⟨hpending, h.knows, ?_⟩)
      intro m rest hc
      rw [get?_proceed _ _ _ _ _ (Ne.symm hservice)] at hc
      exact h.lists hc
  | go kind n r rest hc =>
    have hrest := restOf_eq hc
    have hlists : ∀ {m rest'},
        (w.proceed kind (r.step w.toDaemon).1 n ((r.step w.toDaemon).2 ++ rest)).calls.get?
          .service = some ⟨m, rest'⟩ → ¬m.Misses key := by
      intro m rest' hc'
      obtain ⟨rest₀, hc₀⟩ := notice_of_proceed hc hc'
      exact h.lists hc₀
    by_cases hlook : k = kind ∧ r = triggerServices key.space
    · -- The Services are looked up while this one is known.
      obtain ⟨rfl, rfl⟩ := hlook
      exact Or.inl (owes_proceed (List.mem_append_left _
        (List.mem_map.2 ⟨key.name, Router.mem_servicesIn.2 h.knows, rfl⟩)))
    · have hpending : triggerServices key.space ∈
          (w.proceed kind (r.step w.toDaemon).1 n ((r.step w.toDaemon).2 ++ rest)).restOf k := by
        rw [restOf_proceed]
        split
        · next e =>
          subst e
          have hmem := h.pending
          rw [hrest] at hmem
          rcases List.mem_cons.1 hmem with hr | hmem
          · exact absurd ⟨rfl, hr.symm⟩ hlook
          · exact List.mem_append_right _ hmem
        · exact h.pending
      by_cases hservice : kind = .service
      · subst hservice
        rcases (S.orderly hc).keeps h.knows (h.lists hc) with hknows | hmem
        · exact Or.inr (Or.inl ⟨hpending, hknows, hlists⟩)
        · exact Or.inl (owes_proceed (List.mem_append_right _ hmem))
      · have hr : r.touchesServices = false := S.foreign hservice (hrest ▸ List.mem_cons_self)
        exact Or.inr (Or.inl ⟨hpending, (Router.knows_step hr _ key).2 h.knows, hlists⟩)
  | other hub collectors queues _ => exact Or.inr (Or.inl ⟨h.pending, h.knows, h.lists⟩)

/-! ## Relists that are to look at the cache -/

/-- The handler of Services is to trigger what is cached, after a relist. -/
def Awaits (w : Lookout) (os : List Tracked) : Prop :=
  ∃ rest, w.calls.get? .service = some ⟨.restarted os, rest⟩ ∧ triggerCached .service ∈ rest

theorem awaits_call (hs : w.step (.call .service (.restarted os)) = some w') : w'.Awaits os := by
  cases step_steps hs with
  | call _ _ hnone =>
    have hmem : triggerCached .service ∈ (Notice.restarted os).reactions .service :=
      List.mem_append_right _ (List.mem_append_right _ List.mem_cons_self)
    refine ⟨_, ?_, hmem⟩
    rw [get?_proceed_self, if_neg (List.ne_nil_of_mem hmem)]

theorem Awaits.step (h : w.Awaits os) (key : Key) (hs : w.step a = some w') :
    w'.Owes .service key ∨ w'.Awaits os ∨ (a = .go .service ∧
      (∃ rest, w.calls.get? .service = some ⟨.restarted os, triggerCached .service :: rest⟩) ∧
      key ∉ w.cachedKeys .service) := by
  obtain ⟨rest, hc, hmem⟩ := h
  have hrest := restOf_eq hc
  have hne := call_ne_of_restOf (hrest ▸ List.ne_nil_of_mem hmem) hs
  cases step_steps hs with
  | call kind n _ =>
    have hk : .service ≠ kind := fun e => hne n (e ▸ rfl)
    exact Or.inr (Or.inl ⟨rest, (get?_proceed _ _ _ _ _ hk).trans hc, hmem⟩)
  | go kind n r rest' hc' =>
    by_cases hk : .service = kind
    · subst hk
      rw [hc] at hc'
      cases hc'
      rcases List.mem_cons.1 hmem with rfl | hmem
      · by_cases hcached : key ∈ w.cachedKeys .service
        · exact Or.inl (owes_proceed (List.mem_append_left _ (List.mem_map_of_mem hcached)))
        · exact Or.inr (Or.inr ⟨rfl, ⟨rest', hc⟩, hcached⟩)
      · have hmem' := List.mem_append_right (r.step w.toDaemon).2 hmem
        refine Or.inr (Or.inl ⟨_, ?_, hmem'⟩)
        rw [get?_proceed_self, if_neg (List.ne_nil_of_mem hmem')]
    · exact Or.inr (Or.inl ⟨rest, (get?_proceed _ _ _ _ _ hk).trans hc, hmem⟩)
  | other hub collectors queues _ => exact Or.inr (Or.inl ⟨rest, hc, hmem⟩)

/-- In the run the handler of Services, after a relist, looks for the Service in the cache and does
not find it. -/
def Misses (w : Lookout) (as : List Action) (os : List Tracked) (key : Key) : Prop :=
  ∃ before after v rest, as = before ++ .go .service :: after ∧ w.run before = some v ∧
    v.calls.get? .service = some ⟨.restarted os, triggerCached .service :: rest⟩ ∧
    key ∉ v.cachedKeys .service

theorem Misses.cons (h : w'.Misses as os key) (hs : w.step a = some w') :
    w.Misses (a :: as) os key := by
  obtain ⟨before, after, v, rest, rfl, hv, hc, hno⟩ := h
  exact ⟨a :: before, after, v, rest, rfl, (run_cons hs before).trans hv, hc, hno⟩

theorem Awaits.triggers (h : w.Awaits os) (S : w.Sound)
    (hon : w.router.isEnabled .service = true) (hrun : w.run as = some w₂)
    (hrest : w₂.IsAtRest) : w.Triggers as .service key ∨ w.Misses as os key := by
  induction as generalizing w with
  | nil =>
    cases hrun
    obtain ⟨rest, hc, -⟩ := h
    rw [hrest] at hc
    contradiction
  | cons a as ih =>
    obtain ⟨w', hs, hrun⟩ := Option.bind_eq_some_iff.1 hrun
    have hon' := (isEnabled_step hs .service).trans hon
    rcases h.step key hs with howes | hawaits | ⟨rfl, ⟨rest, hc⟩, hno⟩
    · exact Or.inl ((howes.triggers (S.step hs) hon' hrun hrest).cons hs)
    · exact (ih hawaits (S.step hs) hon' hrun).imp (·.cons hs) (·.cons hs)
    · exact Or.inr ⟨[], as, w, rest, rfl, rfl, hc, hno⟩

/-- A relist of Services begins while the call of the handler `k` is still under way. The Service is
missing from its list and is not found in the cache either. -/
def LetsGo (w : Lookout) (as : List Action) (k : Kind) (key : Key) : Prop :=
  ∃ before os after v v', as = before ++ .call .service (.restarted os) :: after ∧
    w.run before = some v ∧ (∀ n, .call k n ∉ before) ∧ v.restOf k ≠ [] ∧
    v.step (.call .service (.restarted os)) = some v' ∧ key ∉ Notice.keysOf os ∧
    v'.Misses after os key

theorem LetsGo.cons (h : w'.LetsGo as k key) (hs : w.step a = some w')
    (ha : ∀ n, a ≠ .call k n) : w.LetsGo (a :: as) k key := by
  obtain ⟨before, os, after, v, v', rfl, hv, hno, hk, hcall, hkey, hmiss⟩ := h
  refine ⟨a :: before, os, after, v, v', rfl, (run_cons hs before).trans hv, ?_, hk, hcall, hkey,
    hmiss⟩
  intro n hn
  rcases List.mem_cons.1 hn with hn | hn
  · exact ha n hn.symm
  · exact hno n hn

theorem Offers.triggers (h : w.Offers k key) (S : w.Sound)
    (hon : w.router.isEnabled .service = true) (hrun : w.run as = some w₂)
    (hrest : w₂.IsAtRest) : w.Triggers as .service key ∨ w.LetsGo as k key := by
  have hk := List.ne_nil_of_mem h.pending
  induction as generalizing w with
  | nil =>
    cases hrun
    exact absurd (hrest.restOf_eq_nil k) hk
  | cons a as ih =>
    obtain ⟨w', hs, hrun'⟩ := Option.bind_eq_some_iff.1 hrun
    have hon' := (isEnabled_step hs .service).trans hon
    rcases h.step S hs with howes | hoffers | ⟨os, rfl, hno⟩
    · exact Or.inl ((howes.triggers (S.step hs) hon' hrun' hrest).cons hs)
    · exact (ih hoffers (S.step hs) hon' hrun' (List.ne_nil_of_mem hoffers.pending)).imp (·.cons hs)
        (·.cons hs (call_ne_of_restOf hk hs))
    · rcases (awaits_call hs).triggers (S.step hs) hon' hrun' hrest with h | h
      · exact Or.inl (h.cons hs)
      · exact Or.inr ⟨[], os, as, w, w', rfl, rfl, fun n hn => (nomatch hn), hk, hs, hno, h⟩

/-! ## Every change -/

/-- Of Services only those count that are known, or that the handler is being told of, and that are
not missing from a list that it is being told. -/
def Watches (w : Lookout) (kind : Kind) (key : Key) : Prop :=
  kind = .service →
    (w.router.Knows key ∨ ∃ c, w.calls.get? .service = some c ∧ key ∈ c.notice.brought) ∧
    ∀ c, w.calls.get? .service = some c → ¬c.notice.Misses key

theorem owes_or_offers (S : w.Sound) (T : w.Truthful who)
    (hwho : who t.uid = some (kind, t.keyAs kind)) (hwatch : w.Watches kind (t.keyAs kind))
    {n : Notice} {r : Reaction} {rest : List Reaction} (hc : w.calls.get? k = some ⟨n, r :: rest⟩)
    {node : String}
    (hchange : ¬(w.index.Gives kind t node ↔ (r.step w.toDaemon).1.index.Gives kind t node)) :
    let w₁ := w.proceed k (r.step w.toDaemon).1 n ((r.step w.toDaemon).2 ++ rest)
    w₁.Owes kind (t.keyAs kind) ∨ kind = .service ∧ w₁.Offers k (t.keyAs kind) := by
  intro w₁
  have hrest := restOf_eq hc
  have hmore : ∀ {x}, x ∈ (r.step w.toDaemon).2 → x ∈ w₁.restOf k := by
    intro x hx
    rw [restOf_proceed_self]
    exact List.mem_append_left _ hx
  rcases promises_of_change S.linked T.index (T.rest (hrest ▸ List.mem_cons_self)) hwho
    hchange with hp | ⟨rfl, hmem⟩
  · exact Or.inl ⟨k, hp.mono fun x hx => hmore hx⟩
  · obtain ⟨hknown, hlists⟩ := hwatch rfl
    have hstep : w.step (.go k) = some w₁ := by simp [step, hc, w₁]
    have hr : r.touchesServices = false := by
      cases r <;> first | rfl | contradiction
    have hbrings : w.router.Knows (t.keyAs .service) ∨
        trigger .service (t.keyAs .service) ∈ w.restOf .service := by
      rcases hknown with hknown | ⟨c, hcall, hbrought⟩
      · exact Or.inl hknown
      · rw [restOf_eq hcall]
        exact (S.orderly hcall).brings hbrought
    rcases hbrings with hknows | htrigger
    · refine Or.inr ⟨rfl, hmore hmem, (Router.knows_step hr _ _).2 hknows, ?_⟩
      intro m rest' hc'
      obtain ⟨rest₀, hc₀⟩ := notice_of_proceed hc hc'
      exact hlists _ hc₀
    · rcases (owes_of_mem htrigger).step S hstep with ⟨k', m, rest', hgo, hc'⟩ | howes
      · -- A trigger changes nothing about the index.
        cases hgo
        rw [hc] at hc'
        cases hc'
        contradiction
      · exact Or.inl howes

/-- Whatever step gives an object other nodes than before, the object comes to wait in a later step
before all calls are over. The exception is a Service that a relist lets go meanwhile. -/
theorem triggered_of_change (h : Reachable who w) (hwho : who t.uid = some (kind, t.keyAs kind))
    (hon : w.router.isEnabled kind = true) (hwatch : w.Watches kind (t.keyAs kind))
    (hs : w.step a = some w₁) {node : String}
    (hchange : ¬(w.index.Gives kind t node ↔ w₁.index.Gives kind t node))
    (hrun : w₁.run as = some w₂) (hrest : w₂.IsAtRest) :
    w₁.Triggers as kind (t.keyAs kind) ∨
      kind = .service ∧ ∃ k, a = .go k ∧ w₁.LetsGo as k (t.keyAs kind) := by
  obtain ⟨S, T⟩ := h.sound
  have hon' := (isEnabled_step hs kind).trans hon
  have S' := S.step hs
  cases step_steps hs with
  | call => exact absurd Iff.rfl hchange
  | go k n r rest hc =>
    rcases owes_or_offers S T hwho hwatch hc hchange with howes | ⟨rfl, hoffers⟩
    · exact Or.inl (howes.triggers S' hon' hrun hrest)
    · exact (hoffers.triggers S' hon' hrun hrest).imp_right fun hgone => ⟨rfl, k, rfl, hgone⟩
  | other => exact absurd Iff.rfl hchange

/-! ## A Service that is let go -/

def web : Tracked where
  metadata := { name := some "web", space := some "default", uid := some "1" }
  selector := some (.ofList [("app", "web")])

def webPod : Tracked where
  metadata :=
    { name := some "web-0", space := some "default", labels := some (.ofList [("app", "web")]) }
  nodeName := some "a"

def webCensus : Census := fun uid => if uid = "1" then some (.service, web.keyAs .service) else none

/-- A worker takes the oldest key from the queue of the kind. -/
def picked (w : Lookout) (kind : Kind) : Action :=
  .other w.hub w.collectors
    (w.router.queues.modify kind fun q => (q.pick.map Prod.snd).getD q)

/-- All Pods are listed, and there are none. Then a Service comes. -/
def arrival : List Action :=
  [.call .pod (.restarted []), .go .pod, .go .pod, .call .service (.applied web), .go .service,
    .go .service]

def undisturbed : List Action := [.go .pod, .go .pod, .go .pod, .go .pod]

/-- The Services are listed again without the Service, before the handler of Pods looks it up. -/
def overtaken : List Action :=
  [.call .service (.restarted []), .go .service, .go .service, .go .pod, .go .pod, .go .pod]

/-- Whether a step of the run adds the key to the queue of the kind. -/
def addsIn (w : Lookout) (kind : Kind) (key : Key) : List Action → Bool
  | [] => false
  | a :: as =>
    (match a with
      | .go k => (w.restOf k).head? = some (trigger kind key)
      | _ => false) || (w.step a).any fun w' => w'.addsIn kind key as

theorem addsIn_of_triggers (h : w.Triggers as kind key) : w.addsIn kind key as = true := by
  obtain ⟨before, a, after, v, v', rfl, hv, -, ⟨k, n, rest, rfl, hc⟩, -⟩ := h
  induction before generalizing w with
  | nil =>
    cases hv
    simp [addsIn, restOf, hc]
  | cons b before ih =>
    obtain ⟨w', hs, hv⟩ := Option.bind_eq_some_iff.1 hv
    simp [addsIn, hs, ih hv]

theorem isAtRest_of_isEmpty (h : w.calls.isEmpty = true) : w.IsAtRest := by
  intro kind
  rw [Table.get?, List.isEmpty_iff.1 h]
  rfl

theorem arrival_run : ∃ w₀ w w₁, run { ({} : Settings).daemon with } arrival = some w₀ ∧
    w₀.run [w₀.picked .service, .call .pod (.applied webPod)] = some w ∧
    w.step (.go .pod) = some w₁ ∧ w.router.isEnabled .service = true ∧
    w.router.Knows (web.keyAs .service) ∧ w.calls.get? .service = none ∧
    w.index.resolve .service web = .ok ∅ ∧
    w₁.index.resolve .service web = .ok (.ofList ["a"]) ∧
    (w₁.run undisturbed).any (fun w => w.calls.isEmpty) = true ∧
    (w₁.run overtaken).any (fun w =>
      w.calls.isEmpty && !w.router.waits .service (web.keyAs .service)) = true ∧
    w₁.addsIn .service (web.keyAs .service) overtaken = false :=
  ⟨_, _, _, rfl, rfl, rfl, rfl, List.mem_cons_self, rfl, rfl, rfl, by decide +kernel,
    by decide +kernel, by decide +kernel⟩

theorem isTrue_arrival : ∀ a ∈ arrival, a.IsTrue webCensus := by
  intro a ha
  simp only [arrival, List.mem_cons, List.not_mem_nil, or_false] at ha
  rcases ha with rfl | rfl | rfl | rfl | rfl | rfl
  · intro r hr
    rw [List.mem_singleton.1 hr]
    exact fun p hp => (nomatch hp)
  · trivial
  · trivial
  · intro r hr
    rcases List.mem_cons.1 hr with rfl | hr
    · trivial
    · rw [List.mem_singleton.1 hr]
      trivial
  · trivial
  · trivial

theorem isTrue_webPod : (Action.call .pod (.applied webPod)).IsTrue webCensus := by
  intro r hr
  rw [List.mem_singleton.1 hr]
  exact fun o ho => (nomatch ho)

theorem web_given : ∃ w w₁, Reachable webCensus w ∧ w.router.isEnabled .service = true ∧
    w.Watches .service (web.keyAs .service) ∧ w.step (.go .pod) = some w₁ ∧
    ¬(w.index.Gives .service web "a" ↔ w₁.index.Gives .service web "a") ∧
    (w₁.run undisturbed).any (fun w => w.calls.isEmpty) = true ∧
    (w₁.run overtaken).any (fun w =>
      w.calls.isEmpty && !w.router.waits .service (web.keyAs .service)) = true ∧
    w₁.addsIn .service (web.keyAs .service) overtaken = false := by
  obtain ⟨w₀, w, w₁, h₀, h, hs, hon, hknows, hnone, hbefore, hafter, hruns⟩ := arrival_run
  have hr₀ := (Reachable.start {}).run isTrue_arrival h₀
  have hr : Reachable webCensus w := by
    refine hr₀.run ?_ h
    intro a ha
    rcases List.mem_cons.1 ha with rfl | ha
    · trivial
    · rw [List.mem_singleton.1 ha]
      exact isTrue_webPod
  refine ⟨w, w₁, hr, hon, fun _ => ⟨Or.inl hknows, ?_⟩, hs, ?_, hruns⟩
  · intro c hc
    rw [hnone] at hc
    contradiction
  · intro hsame
    obtain ⟨nodes, hnodes, hmem⟩ := hsame.2 ⟨_, hafter, by decide⟩
    rw [hbefore] at hnodes
    cases hnodes
    contradiction

theorem triggered_of_change_undisturbed : ∃ w w₁ w₂, Reachable webCensus w ∧
    webCensus web.uid = some (.service, web.keyAs .service) ∧
    w.router.isEnabled .service = true ∧ w.Watches .service (web.keyAs .service) ∧
    w.step (.go .pod) = some w₁ ∧
    ¬(w.index.Gives .service web "a" ↔ w₁.index.Gives .service web "a") ∧
    w₁.run undisturbed = some w₂ ∧ w₂.IsAtRest ∧
    w₁.Triggers undisturbed .service (web.keyAs .service) := by
  obtain ⟨w, w₁, hr, hon, hwatch, hs, hchange, hrun, -⟩ := web_given
  obtain ⟨w₂, hw₂, hrest⟩ := (Option.any_eq_true _ _).1 hrun
  have hrest := isAtRest_of_isEmpty hrest
  refine ⟨w, w₁, w₂, hr, rfl, hon, hwatch, hs, hchange, hw₂, hrest,
    (triggered_of_change hr rfl hon hwatch hs hchange hw₂ hrest).resolve_right ?_⟩
  rintro ⟨-, k, -, before, os, after, v, v', he, -⟩
  have hmem : .call .service (.restarted os) ∈ undisturbed := by simp [he]
  simp [undisturbed] at hmem

/-- A relist that begins after the change can forget a Service before it is looked up. -/
theorem not_triggered_overtaken :
    ¬∀ {who w kind t a w₁ node as w₂}, Reachable who w → who t.uid = some (kind, t.keyAs kind) →
      w.router.isEnabled kind = true → w.Watches kind (t.keyAs kind) → w.step a = some w₁ →
      ¬(w.index.Gives kind t node ↔ w₁.index.Gives kind t node) → w₁.run as = some w₂ →
      w₂.IsAtRest → w₁.Triggers as kind (t.keyAs kind) := by
  intro h
  obtain ⟨w, w₁, hr, hon, hwatch, hs, hchange, -, hrun, hadds⟩ := web_given
  obtain ⟨w₂, hw₂, hrest⟩ := (Option.any_eq_true _ _).1 hrun
  rw [Bool.and_eq_true] at hrest
  have htriggers := h hr rfl hon hwatch hs hchange hw₂ (isAtRest_of_isEmpty hrest.1)
  rw [addsIn_of_triggers htriggers] at hadds
  contradiction

end Nodecast.Lookout
