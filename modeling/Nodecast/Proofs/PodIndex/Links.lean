import Nodecast.PodIndex.State

/-!
# Links of the pod index

The buckets hold just what the records say, whatever is stored, removed or replaced. So a look-up
finds what a look at all records would find.
-/

namespace Nodecast

/-! ## Buckets that mirror records -/

namespace Buckets

variable {κ ρ : Type} [DecidableEq κ] {b : Buckets κ} {t : Table κ ρ} {labels : ρ → List String}
  {k : κ} {q r : ρ}

/-- A key is in the buckets of the labels that its record carries, and in no other. -/
def Mirrors (b : Buckets κ) (t : Table κ ρ) (labels : ρ → List String) : Prop :=
  ∀ l k, k ∈ b.under l ↔ ∃ r, t.get? k = some r ∧ l ∈ labels r

theorem mirrors_empty : Mirrors (∅ : Buckets κ) (∅ : Table κ ρ) labels := by
  intro l k
  have hnone : ∀ {β : Type} {α : Type} [DecidableEq α] (a : α), (∅ : Table α β).get? a = none :=
    fun _ => rfl
  simp [under, Table.getD, hnone]

theorem Mirrors.insert (h : b.Mirrors t labels) (hq : t.get? k = some q)
    (hsame : labels q = labels r) : b.Mirrors (t.insert k r) labels := by
  intro l a
  rw [h, Table.get?_insert]
  by_cases ha : a = k
  · simp [ha, hq, hsame]
  · simp [ha]

theorem Mirrors.unlink (h : b.Mirrors t labels) (hq : t.get? k = some q) :
    (b.unlinkAll (labels q) k).Mirrors (t.erase k) labels := by
  intro l a
  rw [mem_under_unlinkAll, h, Table.get?_erase]
  by_cases ha : a = k
  · simp [ha, hq]
  · simp [ha]

theorem Mirrors.erase (h : b.Mirrors t labels) (hk : t.get? k = none) :
    b.Mirrors (t.erase k) labels := by
  intro l a
  rw [h, Table.get?_erase]
  by_cases ha : a = k
  · simp [ha, hk]
  · simp [ha]

theorem Mirrors.link (h : b.Mirrors (t.erase k) labels) (r : ρ) :
    (b.linkAll (labels r) k).Mirrors (t.insert k r) labels := by
  intro l a
  rw [mem_under_linkAll, h, Table.get?_erase, Table.get?_insert]
  by_cases ha : a = k
  · simp [ha]
  · simp [ha]

end Buckets

/-! ## Pods -/

namespace Pods

variable {ps : Pods} {p : PodRecord}

structure Linked (ps : Pods) : Prop where
  keyed : ∀ {k p}, ps.get? k = some p → p.key = k
  space : ps.bySpace.Mirrors ps.records fun p => [p.key.space]
  owner : ps.byOwner.Mirrors ps.records PodRecord.ownerUids

theorem linked_empty : ({} : Pods).Linked :=
  ⟨fun h => by contradiction, Buckets.mirrors_empty, Buckets.mirrors_empty⟩

theorem get?_apply (ps : Pods) (p : PodRecord) (k : Key) :
    (ps.apply p).2.get? k = if k = p.key then some p else ps.get? k :=
  Table.get?_insert _ _ _ _

theorem get?_delete (ps : Pods) (key k : Key) :
    (ps.delete key).2.get? k = if k = key then none else ps.get? k :=
  Table.get?_erase _ _ _

theorem Linked.detach (h : ps.Linked) (key : Key) :
    (ps.detach key).bySpace.Mirrors (ps.records.erase key) (fun p => [p.key.space]) ∧
      (ps.detach key).byOwner.Mirrors (ps.records.erase key) PodRecord.ownerUids := by
  unfold Pods.detach
  split
  · next q hq =>
    have hkey := h.keyed hq
    subst hkey
    exact ⟨h.space.unlink hq, h.owner.unlink hq⟩
  · next hnone => exact ⟨h.space.erase hnone, h.owner.erase hnone⟩

theorem linkedLike (h : ps.isLinkedLike p = true) : ∃ q, ps.get? p.key = some q ∧
    q.key.space = p.key.space ∧ q.ownerUids = p.ownerUids := by
  unfold isLinkedLike at h
  cases hq : ps.get? p.key with
  | none => simp [hq] at h
  | some q =>
    simp only [hq, Option.any_some, Bool.and_eq_true, decide_eq_true_eq] at h
    refine ⟨q, rfl, h.1, ?_⟩
    unfold PodRecord.ownerUids
    rw [h.2]

theorem Linked.apply (h : ps.Linked) (p : PodRecord) : (ps.apply p).2.Linked := by
  have hkeyed : ∀ {k q}, (ps.apply p).2.get? k = some q → q.key = k := by
    intro k q hq
    rw [get?_apply] at hq
    split at hq
    · next e =>
      cases hq
      exact e.symm
    · exact h.keyed hq
  by_cases hlike : ps.isLinkedLike p = true
  · -- The buckets are left alone, for the record carries the labels that the old one carried.
    obtain ⟨q, hq, hspace, howners⟩ := linkedLike hlike
    refine ⟨hkeyed, ?_, ?_⟩ <;> simp only [Pods.apply, if_pos hlike]
    · exact h.space.insert hq (by rw [hspace])
    · exact h.owner.insert hq howners
  · obtain ⟨hspace, howner⟩ := h.detach p.key
    refine ⟨hkeyed, ?_, ?_⟩ <;> simp only [Pods.apply, if_neg hlike]
    · exact hspace.link p
    · exact howner.link p

theorem Linked.delete (h : ps.Linked) (key : Key) : (ps.delete key).2.Linked := by
  obtain ⟨hspace, howner⟩ := h.detach key
  refine ⟨?_, hspace, howner⟩
  intro k q hq
  rw [get?_delete] at hq
  split at hq
  · contradiction
  · exact h.keyed hq

theorem linked_ofList (l : List PodRecord) : (ofList l).Linked :=
  List.foldlRecOn l _ linked_empty fun _ h p _ => h.apply p

theorem get?_ofList (l : List PodRecord) (k : Key) :
    (ofList l).get? k = l.reverse.find? fun p => p.key = k :=
  (get?_foldl get?_apply l {} k).trans Option.or_none

end Pods

/-! ## ReplicaSets -/

namespace ReplicaSets

variable {rs : ReplicaSets}

structure Linked (rs : ReplicaSets) : Prop where
  keyed : ∀ {uid r}, rs.get? uid = some r → r.uid = uid
  deployment : rs.byDeployment.Mirrors rs.records ReplicaSetRecord.deploymentUids

theorem linked_empty : ({} : ReplicaSets).Linked :=
  ⟨fun h => by contradiction, Buckets.mirrors_empty⟩

theorem get?_apply (rs : ReplicaSets) (r : ReplicaSetRecord) (uid : String) :
    (rs.apply r).2.get? uid = if uid = r.uid then some r else rs.get? uid :=
  Table.get?_insert _ _ _ _

theorem get?_delete (rs : ReplicaSets) (uid u : String) :
    (rs.delete uid).2.get? u = if u = uid then none else rs.get? u :=
  Table.get?_erase _ _ _

theorem Linked.detach (h : rs.Linked) (uid : String) :
    (rs.detach uid).byDeployment.Mirrors (rs.records.erase uid)
      ReplicaSetRecord.deploymentUids := by
  unfold ReplicaSets.detach
  split
  · next r hr => exact h.deployment.unlink hr
  · next hnone => exact h.deployment.erase hnone

theorem Linked.apply (h : rs.Linked) (r : ReplicaSetRecord) : (rs.apply r).2.Linked := by
  refine ⟨?_, (h.detach r.uid).link r⟩
  intro uid q hq
  rw [get?_apply] at hq
  split at hq
  · next e =>
    cases hq
    exact e.symm
  · exact h.keyed hq

theorem Linked.delete (h : rs.Linked) (uid : String) : (rs.delete uid).2.Linked := by
  refine ⟨?_, h.detach uid⟩
  intro u q hq
  rw [get?_delete] at hq
  split at hq
  · contradiction
  · exact h.keyed hq

theorem linked_ofList (l : List ReplicaSetRecord) : (ofList l).Linked :=
  List.foldlRecOn l _ linked_empty fun _ h r _ => h.apply r

theorem get?_ofList (l : List ReplicaSetRecord) (uid : String) :
    (ofList l).get? uid = l.reverse.find? fun r => r.uid = uid :=
  (get?_foldl get?_apply l {} uid).trans Option.or_none

end ReplicaSets

/-! ## The index -/

namespace PodIndex

variable {i : PodIndex} {p : PodRecord}

structure Linked (i : PodIndex) : Prop where
  pods : i.pods.Linked
  replicaSets : i.replicaSets.Linked

theorem linked_empty : ({} : PodIndex).Linked := ⟨Pods.linked_empty, ReplicaSets.linked_empty⟩

/-- Whether a look at the records finds the Pod under the field. -/
def Field.Finds (sets : ReplicaSets) (p : PodRecord) : Field → Prop
  | .space => True
  | .owner uid => uid ∈ p.ownerUids
  | .deployment uid => ∃ u r, sets.get? u = some r ∧ uid ∈ r.deploymentUids ∧ u ∈ p.ownerUids
  | .selector labels => labels.isEmpty = false ∧ p.labels.matches? labels = true

theorem Linked.mem_candidates (h : i.Linked) {space : String} {k : Key} (hk : k.space = space)
    (hp : i.pods.get? k = some p) (field : Field) :
    k ∈ i.candidates space (i.replicaSetsFor field) field ∧ field.accepts p = true ↔
      field.Finds i.replicaSets p := by
  have hget : ∀ q, i.pods.records.get? k = some q ↔ q = p := by
    intro q
    rw [show i.pods.records.get? k = some p from hp, Option.some.injEq, eq_comm]
  have hspace : k ∈ i.pods.bySpace.under space := by
    rw [h.pods.space]
    exact ⟨p, hp, by simp [h.pods.keyed hp, hk]⟩
  have howner : ∀ u, k ∈ i.pods.byOwner.under u ↔ u ∈ p.ownerUids := by
    intro u
    rw [h.pods.owner]
    simp [hget]
  cases field with
  | space => simp [candidates, Field.accepts, Field.Finds, hspace]
  | owner uid => simp [candidates, Field.accepts, Field.Finds, howner]
  | deployment uid =>
    simp only [candidates, replicaSetsFor, Field.accepts, Field.Finds, and_true, List.mem_flatMap,
      howner]
    constructor
    · rintro ⟨u, hu, hp⟩
      obtain ⟨r, hr, hd⟩ := (h.replicaSets.deployment _ _).1 hu
      exact ⟨u, r, hr, hd, hp⟩
    · rintro ⟨u, r, hr, hd, hp⟩
      exact ⟨u, (h.replicaSets.deployment _ _).2 ⟨r, hr, hd⟩, hp⟩
  | selector labels =>
    cases he : labels.isEmpty <;> simp [candidates, Field.accepts, Field.Finds, he, hspace]

/-- A look-up finds the Pods that a look at all records would find. -/
theorem Linked.mem_related (h : i.Linked) {space : String} {field : Field} :
    p ∈ i.related space field ↔
      i.pods.get? p.key = some p ∧ p.key.space = space ∧ field.Finds i.replicaSets p := by
  unfold related podsFor
  simp only [List.mem_filterMap, List.mem_filter, decide_eq_true_eq, Option.filter_eq_some_iff]
  constructor
  · rintro ⟨k, ⟨hk, hspace⟩, hp, ha⟩
    have hkey := h.pods.keyed hp
    rw [hkey]
    exact ⟨hp, hspace, (h.mem_candidates hspace hp field).1 ⟨hk, ha⟩⟩
  · rintro ⟨hp, hspace, hfinds⟩
    obtain ⟨hk, ha⟩ := (h.mem_candidates hspace hp field).2 hfinds
    exact ⟨p.key, ⟨hk, hspace⟩, hp, ha⟩

end PodIndex

end Nodecast
