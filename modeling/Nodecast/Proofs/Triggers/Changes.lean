import Nodecast.Proofs.PodIndex.Scan
import Nodecast.Watch.Reaction

/-!
# Changes of the pod index and what they call for

A reaction that changes the nodes of an object calls for a trigger of the object, or for a look-up
that comes to one.
-/

namespace Nodecast

/-! ## Owner references -/

/-- The kind and the key of the object that has a uid. -/
abbrev Census := String → Option (Kind × Key)

/-- An owner reference tells the kind and the name of an object in its own namespace. -/
def Owner.IsTrue (o : Owner) (who : Census) (space : String) : Prop :=
  ∀ kind key, who o.uid = some (kind, key) → o.kind = kind.name ∧ key = ⟨space, o.name⟩

def PodRecord.IsTrue (p : PodRecord) (who : Census) : Prop :=
  ∀ o ∈ p.owners, o.IsTrue who p.key.space

def ReplicaSetRecord.IsTrue (r : ReplicaSetRecord) (who : Census) : Prop :=
  who r.uid = some (.replicaSet, r.key) ∧ ∀ d, r.deployment = some d → d.IsTrue who r.key.space

structure PodIndex.IsTrue (i : PodIndex) (who : Census) : Prop where
  pods : ∀ {k p}, i.pods.get? k = some p → p.IsTrue who
  replicaSets : ∀ {uid r}, i.replicaSets.get? uid = some r → r.IsTrue who

def Tracked.keyAs (t : Tracked) (kind : Kind) : Key :=
  if kind.isNamespaced then ⟨t.space, t.name⟩ else .clusterScoped t.name

variable {who : Census} {kind : Kind} {key : Key} {t : Tracked} {p : PodRecord}
  {s : ReplicaSetRecord} {d : Daemon} {r x : Reaction} {rs rs' : List Reaction}

/-! ## The nodes of an object -/

namespace PodIndex

variable {i i' : PodIndex} {n : String} {ps : List PodRecord} {ss : List ReplicaSetRecord}

/-- Whether the index gives the object the node. It gives none before the lists have come. -/
def Gives (i : PodIndex) (kind : Kind) (t : Tracked) (n : String) : Prop :=
  ∃ nodes, i.resolve kind t = .ok nodes ∧ n ∈ nodes

theorem Linked.gives_iff (h : i.Linked) : i.Gives kind t n ↔
    i.inventory.isListedFor kind t = true ∧ i.inventory.Concerns kind t n := by
  obtain ⟨hlisted, hmissing⟩ := h.resolve kind t
  unfold Gives
  cases hl : i.inventory.isListedFor kind t with
  | true =>
    obtain ⟨nodes, hr, hn⟩ := hlisted hl
    simp [hr, hn]
  | false =>
    obtain ⟨e, he⟩ := hmissing hl
    simp [he]

/-- Two indexes have the same records but for the given ones. Where they share a record the list has
come for both or for none. -/
structure DifferIn (ps : List PodRecord) (ss : List ReplicaSetRecord) (i i' : PodIndex) : Prop where
  pods : ∀ {p}, p ∉ ps → (i'.pods.get? p.key = some p ↔ i.pods.get? p.key = some p) ∧
    (i.pods.get? p.key = some p → i'.podsSynced = i.podsSynced)
  sets : ∀ {s}, s ∉ ss → (i'.replicaSets.get? s.uid = some s ↔ i.replicaSets.get? s.uid = some s) ∧
    (i.replicaSets.get? s.uid = some s → i'.replicaSetsSynced = i.replicaSetsSynced)

theorem DifferIn.symm (D : DifferIn ps ss i i') : DifferIn ps ss i' i where
  pods := fun hp => ⟨(D.pods hp).1.symm, fun h => ((D.pods hp).2 ((D.pods hp).1.1 h)).symm⟩
  sets := fun hs => ⟨(D.sets hs).1.symm, fun h => ((D.sets hs).2 ((D.sets hs).1.1 h)).symm⟩

theorem DifferIn.isListedFor_eq (D : DifferIn ps ss i i') (hp : p ∉ ps)
    (hget : i.pods.get? p.key = some p) (hkind : kind ≠ .deployment) :
    i'.inventory.isListedFor kind t = i.inventory.isListedFor kind t := by
  have hsynced := (D.pods hp).2 hget
  cases kind <;> simp [Inventory.isListedFor, inventory, hsynced] at hkind ⊢

theorem DifferIn.of_gives (D : DifferIn ps ss i i') (h : i.Linked) (h' : i'.Linked)
    (hg : i.Gives kind t n) (hno : ¬i'.Gives kind t n) :
    (∃ p ∈ ps, i.pods.get? p.key = some p ∧ i.inventory.Owns kind t p) ∨
    (kind = .deployment ∧ ∃ s ∈ ss, i.replicaSets.get? s.uid = some s ∧
      ∃ d, s.deployment = some d ∧ d.uid = t.uid) := by
  rw [h.gives_iff] at hg
  rw [h'.gives_iff] at hno
  obtain ⟨hlisted, hne, ⟨rfl, hnode⟩ | ⟨k, p, hp, howns, hnode⟩⟩ := hg
  · -- A Pod has its node from itself, whatever is indexed.
    exact absurd ⟨rfl, hne, Or.inl ⟨rfl, hnode⟩⟩ hno
  · obtain rfl := h.pods.keyed hp
    by_cases hps : p ∈ ps
    · exact Or.inl ⟨p, hps, hp, howns⟩
    have hp' := (D.pods hps).1.2 hp
    have hpods := (D.pods hps).2 hp
    by_cases hkind : kind = .deployment
    · -- The Pod is the same, but the ReplicaSet that leads to the Deployment need not be.
      subst hkind
      obtain ⟨hspace, o, ho, s, dep, hs, hdep, huid⟩ := howns
      have hkey := h.replicaSets.keyed hs
      rw [← hkey] at hs
      by_cases hss : s ∈ ss
      · exact Or.inr ⟨rfl, s, hss, hs, dep, hdep, huid⟩
      · have hs' := (D.sets hss).1.2 hs
        have hsets := (D.sets hss).2 hs
        rw [hkey] at hs'
        refine absurd ⟨?_, hne, Or.inr ⟨p.key, p, hp', ?_, hnode⟩⟩ hno
        · simpa [Inventory.isListedFor, inventory, hpods, hsets] using hlisted
        · exact ⟨hspace, o, ho, s, dep, hs', hdep, huid⟩
    · refine absurd ⟨?_, hne, Or.inr ⟨p.key, p, hp', ?_, hnode⟩⟩ hno
      · rw [D.isListedFor_eq hps hp hkind]
        exact hlisted
      · cases kind <;> first | exact absurd rfl hkind | exact howns

/-- The index leads from the uid of a ReplicaSet to the key of its Deployment. -/
def Leads (i : PodIndex) (uid : String) (key : Key) : Prop :=
  ∃ s d, i.replicaSets.get? uid = some s ∧ s.deployment = some d ∧ key = ⟨s.key.space, d.name⟩

theorem DifferIn.leads (D : DifferIn ps ss i i') (h : i.Linked) {uid : String}
    (hl : i.Leads uid key) : i'.Leads uid key ∨
      ∃ s ∈ ss, ∃ d, s.deployment = some d ∧ key = ⟨s.key.space, d.name⟩ := by
  obtain ⟨s, d, hs, hd, hkey⟩ := hl
  obtain rfl := h.replicaSets.keyed hs
  by_cases hss : s ∈ ss
  · exact Or.inr ⟨s, hss, d, hd, hkey⟩
  · exact Or.inl ⟨s, d, (D.sets hss).1.2 hs, hd, hkey⟩

end PodIndex

/-! ## What a reaction changes -/

section Records

variable {κ ρ : Type} [DecidableEq κ] {get? : κ → Option ρ} {name : ρ → κ} {q r : ρ} {vs l : List ρ}

theorem same_stored (hq : q ∉ (get? (name r)).toList ++ [r]) :
    (if name q = name r then some r else get? (name q)) = some q ↔ get? (name q) = some q := by
  split
  · next hname =>
    rw [hname]
    simp only [List.mem_append, Option.mem_toList, List.mem_singleton, not_or] at hq
    exact ⟨fun h => absurd (Option.some.inj h).symm hq.2, fun h => absurd h hq.1⟩
  · exact Iff.rfl

theorem same_removed (hq : q ∉ [(get? (name r)).getD r]) :
    (if name q = name r then none else get? (name q)) = some q ↔ get? (name q) = some q := by
  split
  · next hname =>
    rw [hname]
    refine ⟨nofun, fun h => ?_⟩
    simp [h] at hq
  · exact Iff.rfl

theorem same_replaced (hvs : ∀ {q}, get? (name q) = some q → q ∈ vs) (hq : q ∉ vs ++ l) :
    (l.reverse.find? fun r => name r = name q) = some q ↔ get? (name q) = some q := by
  rw [List.mem_append, not_or] at hq
  constructor
  · intro h
    exact absurd (List.mem_reverse.1 (List.mem_of_find?_eq_some h)) hq.2
  · intro h
    exact absurd (hvs h) hq.1

end Records

namespace Reaction

def update? : Reaction → Option PodIndex.Update
  | storePod p => some (.applyPod p)
  | removePod p => some (.deletePod p.key)
  | replacePods ps => some (.replacePods ps)
  | storeReplicaSet s => some (.applyReplicaSet s)
  | removeReplicaSet s => some (.deleteReplicaSet s.uid)
  | replaceReplicaSets ss => some (.replaceReplicaSets ss)
  | _ => none

theorem step_index (d : Daemon) (r : Reaction) :
    (r.step d).1.index = (r.update?.map d.index.update).getD d.index := by
  cases r <;> rfl

theorem linked_step (h : d.index.Linked) (r : Reaction) : (r.step d).1.index.Linked := by
  rw [step_index]
  cases r.update? with
  | none => exact h
  | some u => exact h.update u

/-- The Pods that are different afterwards, as they were and as they are. -/
def pods (r : Reaction) (i : PodIndex) : List PodRecord :=
  match r with
  | storePod p => (i.pods.get? p.key).toList ++ [p]
  | removePod p => [(i.pods.get? p.key).getD p]
  | replacePods ps => i.pods.records.values ++ ps
  | _ => []

/-- The ReplicaSets that are different afterwards, as they were and as they are. -/
def replicaSets (r : Reaction) (i : PodIndex) : List ReplicaSetRecord :=
  match r with
  | storeReplicaSet s => (i.replicaSets.get? s.uid).toList ++ [s]
  | removeReplicaSet s => [(i.replicaSets.get? s.uid).getD s]
  | replaceReplicaSets ss => i.replicaSets.records.values ++ ss
  | _ => []

theorem podChanged_subset (h : p ∈ r.pods d.index) : podChanged p ⊆ (r.step d).2 := by
  intro x hx
  cases r with
  | storePod q =>
    simp only [pods, List.mem_append, Option.mem_toList, List.mem_singleton] at h
    show x ∈ (d.index.pods.get? q.key).toList.flatMap podChanged ++ podChanged q
    rw [List.mem_append, List.mem_flatMap]
    rcases h with h | rfl
    · exact Or.inl ⟨p, Option.mem_toList.2 h, hx⟩
    · exact Or.inr hx
  | removePod q =>
    simp only [pods, List.mem_singleton] at h
    rw [h] at hx
    exact hx
  | replacePods ps =>
    simp only [pods, List.mem_append] at h
    show x ∈ d.index.pods.records.values.flatMap podChanged ++ ps.flatMap podChanged ++ _
    rw [List.mem_append, List.mem_append, List.mem_flatMap, List.mem_flatMap]
    exact Or.inl (h.imp (⟨p, ·, hx⟩) (⟨p, ·, hx⟩))
  | _ => contradiction

theorem replicaSetChanged_subset (h : s ∈ r.replicaSets d.index) :
    replicaSetChanged s ⊆ (r.step d).2 := by
  intro x hx
  cases r with
  | storeReplicaSet q =>
    simp only [replicaSets, List.mem_append, Option.mem_toList, List.mem_singleton] at h
    show x ∈ (d.index.replicaSets.get? q.uid).toList.flatMap replicaSetChanged ++
      replicaSetChanged q ++ _
    rw [List.mem_append, List.mem_append, List.mem_flatMap]
    rcases h with h | rfl
    · exact Or.inl (Or.inl ⟨s, Option.mem_toList.2 h, hx⟩)
    · exact Or.inl (Or.inr hx)
  | removeReplicaSet q =>
    simp only [replicaSets, List.mem_singleton] at h
    rw [h] at hx
    exact List.mem_append_left _ hx
  | replaceReplicaSets ss =>
    simp only [replicaSets, List.mem_append] at h
    show x ∈ d.index.replicaSets.records.values.flatMap replicaSetChanged ++
      ss.flatMap replicaSetChanged ++ _
    rw [List.mem_append, List.mem_append, List.mem_flatMap, List.mem_flatMap]
    exact Or.inl (h.imp (⟨s, ·, hx⟩) (⟨s, ·, hx⟩))
  | _ => contradiction

theorem differIn_step (d : Daemon) (r : Reaction) : PodIndex.DifferIn (r.pods d.index)
    (r.replicaSets d.index) d.index (r.step d).1.index where
  pods := by
    intro q hq
    cases r with
    | storePod p =>
      refine ⟨?_, fun _ => rfl⟩
      show (d.index.pods.apply p).2.get? q.key = some q ↔ _
      rw [Pods.get?_apply]
      exact same_stored hq
    | removePod p =>
      refine ⟨?_, fun _ => rfl⟩
      show (d.index.pods.delete p.key).2.get? q.key = some q ↔ _
      rw [Pods.get?_delete]
      exact same_removed hq
    | replacePods ps =>
      have hvalues : ∀ {q}, d.index.pods.get? q.key = some q → q ∈ d.index.pods.records.values :=
        fun h => Table.mem_values_iff.2 ⟨_, h⟩
      refine ⟨?_, fun h => absurd (List.mem_append_left _ (hvalues h)) hq⟩
      show (Pods.ofList ps).get? q.key = some q ↔ _
      rw [Pods.get?_ofList]
      exact same_replaced hvalues hq
    | _ => exact ⟨Iff.rfl, fun _ => rfl⟩
  sets := by
    intro q hq
    cases r with
    | storeReplicaSet s =>
      refine ⟨?_, fun _ => rfl⟩
      show (d.index.replicaSets.apply s).2.get? q.uid = some q ↔ _
      rw [ReplicaSets.get?_apply]
      exact same_stored hq
    | removeReplicaSet s =>
      refine ⟨?_, fun _ => rfl⟩
      show (d.index.replicaSets.delete s.uid).2.get? q.uid = some q ↔ _
      rw [ReplicaSets.get?_delete]
      exact same_removed hq
    | replaceReplicaSets ss =>
      have hvalues : ∀ {q}, d.index.replicaSets.get? q.uid = some q →
          q ∈ d.index.replicaSets.records.values := fun h => Table.mem_values_iff.2 ⟨_, h⟩
      refine ⟨?_, fun h => absurd (List.mem_append_left _ (hvalues h)) hq⟩
      show (ReplicaSets.ofList ss).get? q.uid = some q ↔ _
      rw [ReplicaSets.get?_ofList]
      exact same_replaced hvalues hq
    | _ => exact ⟨Iff.rfl, fun _ => rfl⟩

/-! ## What a reaction knows -/

def IsTrue (who : Census) : Reaction → Prop
  | storePod p | removePod p => p.IsTrue who
  | replacePods ps => ∀ p ∈ ps, p.IsTrue who
  | storeReplicaSet s | removeReplicaSet s => s.IsTrue who
  | replaceReplicaSets ss => ∀ s ∈ ss, s.IsTrue who
  | _ => True

theorem IsTrue.of_mem_pods (hr : r.IsTrue who) (hi : d.index.IsTrue who)
    (hp : p ∈ r.pods d.index) : p.IsTrue who := by
  cases r with
  | storePod q =>
    simp only [pods, List.mem_append, Option.mem_toList, List.mem_singleton] at hp
    rcases hp with hp | rfl
    · exact hi.pods hp
    · exact hr
  | removePod q =>
    simp only [pods, List.mem_singleton] at hp
    cases hq : d.index.pods.get? q.key with
    | none =>
      rw [hp, hq]
      exact hr
    | some q' =>
      rw [hp, hq]
      exact hi.pods hq
  | replacePods ps =>
    rcases List.mem_append.1 hp with hp | hp
    · obtain ⟨k, hk⟩ := Table.mem_values_iff.1 hp
      exact hi.pods hk
    · exact hr p hp
  | _ => contradiction

theorem IsTrue.of_mem_replicaSets (hr : r.IsTrue who) (hi : d.index.IsTrue who)
    (hs : s ∈ r.replicaSets d.index) : s.IsTrue who := by
  cases r with
  | storeReplicaSet q =>
    simp only [replicaSets, List.mem_append, Option.mem_toList, List.mem_singleton] at hs
    rcases hs with hs | rfl
    · exact hi.replicaSets hs
    · exact hr
  | removeReplicaSet q =>
    simp only [replicaSets, List.mem_singleton] at hs
    cases hq : d.index.replicaSets.get? q.uid with
    | none =>
      rw [hs, hq]
      exact hr
    | some q' =>
      rw [hs, hq]
      exact hi.replicaSets hq
  | replaceReplicaSets ss =>
    rcases List.mem_append.1 hs with hs | hs
    · obtain ⟨k, hk⟩ := Table.mem_values_iff.1 hs
      exact hi.replicaSets hk
    · exact hr s hs
  | _ => contradiction

theorem IsTrue.step (hr : r.IsTrue who) (h : d.index.Linked) (hi : d.index.IsTrue who) :
    (r.step d).1.index.IsTrue who where
  pods := by
    intro k p hp
    obtain rfl := (linked_step h r).pods.keyed hp
    by_cases hmem : p ∈ r.pods d.index
    · exact hr.of_mem_pods hi hmem
    · exact hi.pods (((differIn_step d r).pods hmem).1.1 hp)
  replicaSets := by
    intro uid s hs
    obtain rfl := (linked_step h r).replicaSets.keyed hs
    by_cases hmem : s ∈ r.replicaSets d.index
    · exact hr.of_mem_replicaSets hi hmem
    · exact hi.replicaSets (((differIn_step d r).sets hmem).1.1 hs)

/-! ## What a change calls for -/

/-- The reactions come to a trigger of the key, if the index leads from a ReplicaSet to it. -/
def Promises (i : PodIndex) (kind : Kind) (key : Key) (rs : List Reaction) : Prop :=
  trigger kind key ∈ rs ∨
    kind = .deployment ∧ ∃ uid, triggerDeployment key.space uid ∈ rs ∧ i.Leads uid key

theorem Promises.mono {i : PodIndex} (h : Promises i kind key rs) (hsub : rs ⊆ rs') :
    Promises i kind key rs' := by
  rcases h with h | ⟨hk, uid, hu, hl⟩
  · exact Or.inl (hsub h)
  · exact Or.inr ⟨hk, uid, hsub hu, hl⟩

theorem trigger_mem_replicaSetChanged {o : Owner} (hd : s.deployment = some o)
    (hkey : key = ⟨s.key.space, o.name⟩) : trigger .deployment key ∈ replicaSetChanged s := by
  simp [replicaSetChanged, hd, hkey]

theorem Promises.step (h : Promises d.index kind key rs) (hi : d.index.Linked) (r : Reaction) :
    Promises (r.step d).1.index kind key rs ∨ trigger kind key ∈ (r.step d).2 := by
  rcases h with h | ⟨rfl, uid, hu, hl⟩
  · exact Or.inl (Or.inl h)
  · rcases (differIn_step d r).leads hi hl with hl | ⟨s, hs, o, ho, hkey⟩
    · exact Or.inl (Or.inr ⟨rfl, uid, hu, hl⟩)
    · exact Or.inr (replicaSetChanged_subset hs (trigger_mem_replicaSetChanged ho hkey))

theorem Promises.head (h : Promises d.index kind key (r :: rs)) :
    r = trigger kind key ∨ trigger kind key ∈ (r.step d).2 ∨ Promises d.index kind key rs := by
  rcases h with h | ⟨rfl, uid, hu, hl⟩
  · rcases List.mem_cons.1 h with h | h
    · exact Or.inl h.symm
    · exact Or.inr (Or.inr (Or.inl h))
  · rcases List.mem_cons.1 hu with rfl | hu
    · obtain ⟨s, o, hs, ho, hkey⟩ := hl
      right; left
      have hs' : d.index.replicaSets.get? uid = some s := hs
      simp [Reaction.step, hs', ho, hkey]
    · exact Or.inr (Or.inr (Or.inr ⟨rfl, uid, hu, hl⟩))

theorem podChanged_reaches {i : PodIndex} (hi : i.Linked) (ht : i.IsTrue who) (hp : p.IsTrue who)
    (hwho : who t.uid = some (kind, t.keyAs kind)) (howns : i.inventory.Owns kind t p) :
    Promises i kind (t.keyAs kind) (podChanged p) ∨
      kind = .service ∧ triggerServices (t.keyAs kind).space ∈ podChanged p := by
  cases kind with
  | pod => exact howns.elim
  | nameSpace =>
    left; left
    have hspace : p.key.space = t.name := howns
    simp [podChanged, hspace, Tracked.keyAs, Kind.isNamespaced]
  | replicaSet =>
    obtain ⟨-, o, ho, huid⟩ := howns
    obtain ⟨hkind, hkey⟩ := hp o ho _ _ (huid ▸ hwho)
    left; left
    rw [hkey]
    have hmem : trigger .replicaSet ⟨p.key.space, o.name⟩ ∈ forOwner p.key.space o := by
      simp [forOwner, hkind]
    simp only [podChanged, List.mem_append, List.mem_flatMap]
    exact Or.inl (Or.inr ⟨o, ho, hmem⟩)
  | replicationController =>
    obtain ⟨-, o, ho, huid⟩ := howns
    obtain ⟨hkind, hkey⟩ := hp o ho _ _ (huid ▸ hwho)
    left; left
    rw [hkey]
    have hmem : trigger .replicationController ⟨p.key.space, o.name⟩ ∈ forOwner p.key.space o := by
      simp [forOwner, hkind, Kind.name]
    simp only [podChanged, List.mem_append, List.mem_flatMap]
    exact Or.inl (Or.inr ⟨o, ho, hmem⟩)
  | deployment =>
    obtain ⟨-, o, ho, s, dep, hs, hdep, huid⟩ := howns
    have hget : i.replicaSets.get? o.uid = some s := hs
    obtain ⟨hswho, hstrue⟩ := ht.replicaSets hget
    rw [hi.replicaSets.keyed hget] at hswho
    obtain ⟨hkind, hskey⟩ := hp o ho _ _ hswho
    obtain ⟨-, hkey⟩ := hstrue dep hdep _ _ (huid ▸ hwho)
    left; right
    refine ⟨rfl, o.uid, ?_, s, dep, hget, hdep, hkey⟩
    have hmem : triggerDeployment p.key.space o.uid ∈ forOwner p.key.space o := by
      simp [forOwner, hkind]
    have hspace : (t.keyAs .deployment).space = p.key.space := by rw [hkey, hskey]
    rw [hspace]
    simp only [podChanged, List.mem_append, List.mem_flatMap]
    exact Or.inl (Or.inr ⟨o, ho, hmem⟩)
  | service =>
    right
    have hspace : p.key.space = t.space := howns.1
    simp [podChanged, hspace, Tracked.keyAs, Kind.isNamespaced]

theorem reaches_of_pods (hi : d.index.IsTrue who) (hr : r.IsTrue who)
    (hwho : who t.uid = some (kind, t.keyAs kind)) {i : PodIndex} (h : i.Linked)
    (ht : i.IsTrue who) (hp : p ∈ r.pods d.index) (howns : i.inventory.Owns kind t p) :
    Promises i kind (t.keyAs kind) (r.step d).2 ∨
      kind = .service ∧ triggerServices (t.keyAs kind).space ∈ (r.step d).2 := by
  have hsub := podChanged_subset hp
  rcases podChanged_reaches h ht (hr.of_mem_pods hi hp) hwho howns with hp | ⟨hk, hp⟩
  · exact Or.inl (hp.mono hsub)
  · exact Or.inr ⟨hk, hsub hp⟩

theorem trigger_of_replicaSets (hi : d.index.IsTrue who) (hr : r.IsTrue who)
    (hwho : who t.uid = some (.deployment, t.keyAs .deployment)) (hs : s ∈ r.replicaSets d.index)
    {o : Owner} (hd : s.deployment = some o) (huid : o.uid = t.uid) :
    trigger .deployment (t.keyAs .deployment) ∈ (r.step d).2 := by
  obtain ⟨-, hkey⟩ := (hr.of_mem_replicaSets hi hs).2 o hd _ _ (huid ▸ hwho)
  exact replicaSetChanged_subset hs (trigger_mem_replicaSetChanged hd hkey)

/-- A reaction that changes the nodes of an object calls for what comes to a trigger of the object,
or for one of the known Services. -/
theorem promises_of_change (h : d.index.Linked) (hi : d.index.IsTrue who) (hr : r.IsTrue who)
    (hwho : who t.uid = some (kind, t.keyAs kind)) {n : String}
    (hchange : ¬(d.index.Gives kind t n ↔ (r.step d).1.index.Gives kind t n)) :
    Promises (r.step d).1.index kind (t.keyAs kind) (r.step d).2 ∨
      kind = .service ∧ triggerServices (t.keyAs kind).space ∈ (r.step d).2 := by
  have h' := linked_step h r
  have D := differIn_step d r
  by_cases hg : d.index.Gives kind t n
  · have hno : ¬(r.step d).1.index.Gives kind t n := fun hg' => hchange ⟨fun _ => hg', fun _ => hg⟩
    rcases D.of_gives h h' hg hno with ⟨p, hp, -, howns⟩ | ⟨rfl, s, hs, -, o, ho, huid⟩
    · rcases reaches_of_pods hi hr hwho h hi hp howns with hp | hservice
      · exact Or.inl ((hp.step h r).elim id Or.inl)
      · exact Or.inr hservice
    · exact Or.inl (Or.inl (trigger_of_replicaSets hi hr hwho hs ho huid))
  · have hg' : (r.step d).1.index.Gives kind t n :=
      Classical.byContradiction fun hno => hchange ⟨fun h => absurd h hg, fun h => absurd h hno⟩
    rcases D.symm.of_gives h' h hg' hg with ⟨p, hp, -, howns⟩ | ⟨rfl, s, hs, -, o, ho, huid⟩
    · exact reaches_of_pods hi hr hwho h' (hr.step h hi) hp howns
    · exact Or.inl (Or.inl (trigger_of_replicaSets hi hr hwho hs ho huid))

end Reaction

end Nodecast
