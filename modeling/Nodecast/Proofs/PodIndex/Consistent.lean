import Nodecast.Proofs.PodIndex.Scan

/-!
# Consistency of the pod index

Records stand under their own keys, and the buckets hold just the keys that the records call for: no
bucket is empty and none holds a key twice. An update answers what was stored before it.
-/

namespace Nodecast

/-! ## Buckets without leaks -/

namespace Buckets

variable {κ ρ : Type} {b : Buckets κ} {ks : List κ}

/-- No bucket is empty, and none holds a member twice. -/
def Tidy (b : Buckets κ) : Prop := ∀ label ks, b.get? label = some ks → ks ≠ [] ∧ ks.Nodup

theorem tidy_empty : Tidy (∅ : Buckets κ) := fun _ _ h => by cases h

theorem Tidy.nodup_under (h : b.Tidy) (label : String) : (b.under label).Nodup := by
  unfold under Table.getD
  cases hks : b.get? label with
  | none => exact List.nodup_nil
  | some ks => exact (h label ks hks).2

theorem Tidy.insert (h : b.Tidy) (label : String) (hne : ks ≠ []) (hnodup : ks.Nodup) :
    Tidy (Table.insert b label ks) := by
  intro l other hl
  rw [Table.get?_insert] at hl
  split at hl
  · cases hl
    exact ⟨hne, hnodup⟩
  · exact h l other hl

theorem Tidy.erase (h : b.Tidy) (label : String) : Tidy (Table.erase b label) := by
  intro l other hl
  rw [Table.get?_erase] at hl
  split at hl
  · cases hl
  · exact h l other hl

variable [DecidableEq κ]

theorem Tidy.link (h : b.Tidy) (label : String) (k : κ) : (b.link label k).Tidy := by
  unfold Buckets.link
  split
  · exact h
  · next hk =>
    apply h.insert label (by simp)
    rw [List.nodup_append]
    refine ⟨h.nodup_under label, by simp, ?_⟩
    intro a ha c hc e
    rw [List.mem_singleton] at hc
    exact hk (hc ▸ e ▸ ha)

theorem Tidy.unlink (h : b.Tidy) (label : String) (k : κ) : (b.unlink label k).Tidy := by
  unfold Buckets.unlink
  split
  · exact h.erase label
  · next hne =>
    exact h.insert label hne ((h.nodup_under label).filter _)

theorem Tidy.linkAll (h : b.Tidy) (ls : List String) (k : κ) : (b.linkAll ls k).Tidy :=
  List.foldlRecOn ls _ h fun _ hb label _ => hb.link label k

theorem Tidy.unlinkAll (h : b.Tidy) (ls : List String) (k : κ) : (b.unlinkAll ls k).Tidy :=
  List.foldlRecOn ls _ h fun _ hb label _ => hb.unlink label k

/-- The keys of the records that carry a label are its bucket, each of them once. A label that no
record carries has none. -/
structure Exact (b : Buckets κ) (t : Table κ ρ) (labels : ρ → List String) : Prop where
  mirrors : b.Mirrors t labels
  tidy : b.Tidy

end Buckets

namespace Pods

variable {ps : Pods}

structure Tidy (ps : Pods) : Prop where
  space : ps.bySpace.Tidy
  owner : ps.byOwner.Tidy

theorem tidy_empty : ({} : Pods).Tidy := ⟨Buckets.tidy_empty, Buckets.tidy_empty⟩

theorem Tidy.link (h : ps.Tidy) (p : PodRecord) : (ps.link p).Tidy :=
  ⟨h.space.link _ _, h.owner.linkAll _ _⟩

theorem Tidy.detach (h : ps.Tidy) (key : Key) : (ps.detach key).Tidy := by
  unfold Pods.detach
  split
  · exact ⟨h.space.unlink _ _, h.owner.unlinkAll _ _⟩
  · exact h

theorem Tidy.apply (h : ps.Tidy) (p : PodRecord) : (ps.apply p).2.Tidy := by
  have hlinked : Pods.Tidy (if ps.isLinkedLike p then ps else (ps.detach p.key).link p) := by
    split
    · exact h
    · exact (h.detach p.key).link p
  exact ⟨hlinked.space, hlinked.owner⟩

theorem Tidy.delete (h : ps.Tidy) (key : Key) : (ps.delete key).2.Tidy :=
  ⟨(h.detach key).space, (h.detach key).owner⟩

theorem tidy_ofList (l : List PodRecord) : (ofList l).Tidy :=
  List.foldlRecOn l _ tidy_empty fun _ h p _ => h.apply p

end Pods

namespace ReplicaSets

variable {rs : ReplicaSets}

def Tidy (rs : ReplicaSets) : Prop := rs.byDeployment.Tidy

theorem tidy_empty : ({} : ReplicaSets).Tidy := Buckets.tidy_empty

theorem Tidy.detach (h : rs.Tidy) (uid : String) : (rs.detach uid).Tidy := by
  unfold ReplicaSets.detach
  split
  · exact Buckets.Tidy.unlinkAll h _ _
  · exact h

theorem Tidy.apply (h : rs.Tidy) (r : ReplicaSetRecord) : (rs.apply r).2.Tidy :=
  Buckets.Tidy.linkAll (h.detach r.uid) _ _

theorem Tidy.delete (h : rs.Tidy) (uid : String) : (rs.delete uid).2.Tidy := h.detach uid

theorem tidy_ofList (l : List ReplicaSetRecord) : (ofList l).Tidy :=
  List.foldlRecOn l _ tidy_empty fun _ h r _ => h.apply r

end ReplicaSets

/-! ## What an update answers -/

/-- The list has all that is stored, each record once. -/
structure ListsAll {κ ρ : Type} (l : List ρ) (key : ρ → κ) (stored : κ → Option ρ) : Prop where
  once : (l.map key).Nodup
  all : ∀ r, r ∈ l ↔ stored (key r) = some r

theorem Table.listsAll_values {κ ρ : Type} [DecidableEq κ] {t : Table κ ρ} {key : ρ → κ}
    (h : ∀ {k r}, t.get? k = some r → key r = k) : ListsAll t.values key t.get? where
  once := by
    have hkeys : t.values.map key = t.keys := by
      unfold values keys
      rw [List.map_map]
      apply List.map_congr_left
      rintro ⟨k, r⟩ hm
      exact h (mem_entries_iff.1 hm)
    rw [hkeys]
    exact t.keys_nodup
  all := by
    intro r
    rw [mem_values_iff]
    constructor
    · rintro ⟨k, hk⟩
      rwa [h hk]
    · exact fun hr => ⟨_, hr⟩

namespace PodIndex

variable {i : PodIndex}

/-- An update answers what the inventory had stored: the record under its key, or all of them. -/
def Answers (i : PodIndex) (v : Inventory) : Update → Prop
  | .applyPod p => (i.applyPod p).1 = v.pods p.key
  | .deletePod key => (i.deletePod key).1 = v.pods key
  | .replacePods ps => ListsAll (i.replacePods ps).1 PodRecord.key v.pods
  | .applyReplicaSet r => (i.applyReplicaSet r).1 = v.sets r.uid
  | .deleteReplicaSet uid => (i.deleteReplicaSet uid).1 = v.sets uid
  | .replaceReplicaSets rs => ListsAll (i.replaceReplicaSets rs).1 ReplicaSetRecord.uid v.sets

theorem Linked.answers (h : i.Linked) (u : Update) : i.Answers i.inventory u := by
  cases u with
  | replacePods ps => exact Table.listsAll_values h.pods.keyed
  | replaceReplicaSets rs => exact Table.listsAll_values h.replicaSets.keyed
  | applyPod | deletePod | applyReplicaSet | deleteReplicaSet => rfl

/-! ## The index -/

structure Tidy (i : PodIndex) : Prop where
  pods : i.pods.Tidy
  replicaSets : i.replicaSets.Tidy

theorem tidy_empty : ({} : PodIndex).Tidy := ⟨Pods.tidy_empty, ReplicaSets.tidy_empty⟩

theorem Tidy.update (h : i.Tidy) (u : Update) : (i.update u).Tidy := by
  cases u with
  | applyPod p => exact ⟨h.pods.apply p, h.replicaSets⟩
  | deletePod key => exact ⟨h.pods.delete key, h.replicaSets⟩
  | replacePods ps => exact ⟨Pods.tidy_ofList ps, h.replicaSets⟩
  | applyReplicaSet r => exact ⟨h.pods, h.replicaSets.apply r⟩
  | deleteReplicaSet uid => exact ⟨h.pods, h.replicaSets.delete uid⟩
  | replaceReplicaSets rs => exact ⟨h.pods, ReplicaSets.tidy_ofList rs⟩

theorem tidy_after (us : List Update) : (after us).Tidy :=
  List.foldlRecOn us _ tidy_empty fun _ h u _ => h.update u

/-- Every record stands under its own key, and each of the three collections of buckets holds just
the keys that the records call for. -/
structure Consistent (i : PodIndex) : Prop where
  podKey : ∀ {k p}, i.pods.get? k = some p → p.key = k
  setUid : ∀ {uid r}, i.replicaSets.get? uid = some r → r.uid = uid
  space : i.pods.bySpace.Exact i.pods.records fun p => [p.key.space]
  owner : i.pods.byOwner.Exact i.pods.records PodRecord.ownerUids
  deployment :
    i.replicaSets.byDeployment.Exact i.replicaSets.records ReplicaSetRecord.deploymentUids

theorem Linked.consistent (h : i.Linked) (ht : i.Tidy) : i.Consistent where
  podKey := h.pods.keyed
  setUid := h.replicaSets.keyed
  space := ⟨h.pods.space, ht.pods.space⟩
  owner := ⟨h.pods.owner, ht.pods.owner⟩
  deployment := ⟨h.replicaSets.deployment, ht.replicaSets⟩

/-- After any updates the index has the records of the inventory, its buckets are exact, and the
next update answers what was stored before it. -/
theorem consistent_after (us : List Update) :
    (after us).inventory = Inventory.after us ∧ (after us).Consistent ∧
      ∀ u, (after us).Answers (Inventory.after us) u := by
  have hlinked := linked_after us
  refine ⟨inventory_after us, hlinked.consistent (tidy_after us), fun u => ?_⟩
  rw [← inventory_after]
  exact hlinked.answers u

end PodIndex

end Nodecast
