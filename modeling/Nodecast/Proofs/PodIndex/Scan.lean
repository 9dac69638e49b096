import Nodecast.Proofs.PodIndex.Links
import Nodecast.Resolver

/-!
# Looking at every Pod

An inventory has the Pods and ReplicaSets there are and nothing to find them by. The index gives for
every object the nodes that a look at all Pods of the inventory gives.
-/

namespace Nodecast

/-! ## Updates -/

namespace PodIndex

inductive Update where
  | applyPod (p : PodRecord)
  | deletePod (key : Key)
  | replacePods (ps : List PodRecord)
  | applyReplicaSet (r : ReplicaSetRecord)
  | deleteReplicaSet (uid : String)
  | replaceReplicaSets (rs : List ReplicaSetRecord)

def update (i : PodIndex) : Update → PodIndex
  | .applyPod p => (i.applyPod p).2
  | .deletePod key => (i.deletePod key).2
  | .replacePods ps => (i.replacePods ps).2
  | .applyReplicaSet r => (i.applyReplicaSet r).2
  | .deleteReplicaSet uid => (i.deleteReplicaSet uid).2
  | .replaceReplicaSets rs => (i.replaceReplicaSets rs).2

def after (us : List Update) : PodIndex := us.foldl update {}

theorem Linked.update {i : PodIndex} (h : i.Linked) (u : Update) : (i.update u).Linked := by
  cases u with
  | applyPod p => exact ⟨h.pods.apply p, h.replicaSets⟩
  | deletePod key => exact ⟨h.pods.delete key, h.replicaSets⟩
  | replacePods ps => exact ⟨Pods.linked_ofList ps, h.replicaSets⟩
  | applyReplicaSet r => exact ⟨h.pods, h.replicaSets.apply r⟩
  | deleteReplicaSet uid => exact ⟨h.pods, h.replicaSets.delete uid⟩
  | replaceReplicaSets rs => exact ⟨h.pods, ReplicaSets.linked_ofList rs⟩

theorem linked_after (us : List Update) : (after us).Linked :=
  List.foldlRecOn us _ linked_empty fun _ h u _ => h.update u

end PodIndex

/-! ## The inventory -/

structure Inventory where
  pods : Key → Option PodRecord
  sets : String → Option ReplicaSetRecord
  /-- A complete list of Pods has come. -/
  podsListed : Bool
  setsListed : Bool

namespace Inventory

def empty : Inventory := ⟨fun _ => none, fun _ => none, false, false⟩

/-- In a list with two records of one name the later one counts. -/
def update (v : Inventory) : PodIndex.Update → Inventory
  | .applyPod p => { v with pods := fun k => if k = p.key then some p else v.pods k }
  | .deletePod key => { v with pods := fun k => if k = key then none else v.pods k }
  | .replacePods ps =>
    { v with pods := fun k => ps.reverse.find? fun p => p.key = k, podsListed := true }
  | .applyReplicaSet r => { v with sets := fun u => if u = r.uid then some r else v.sets u }
  | .deleteReplicaSet uid => { v with sets := fun u => if u = uid then none else v.sets u }
  | .replaceReplicaSets rs =>
    { v with sets := fun u => rs.reverse.find? fun r => r.uid = u, setsListed := true }

def after (us : List PodIndex.Update) : Inventory := us.foldl update empty

/-- Whether the Pod belongs to the object. No Pod belongs to a Pod. -/
def Owns (v : Inventory) (kind : Kind) (t : Tracked) (p : PodRecord) : Prop :=
  match kind with
  | .pod => False
  | .nameSpace => p.key.space = t.name
  | .replicaSet | .replicationController => p.key.space = t.space ∧ ∃ o ∈ p.owners, o.uid = t.uid
  | .deployment => p.key.space = t.space ∧ ∃ o ∈ p.owners, ∃ r d, v.sets o.uid = some r ∧
      r.deployment = some d ∧ d.uid = t.uid
  | .service => p.key.space = t.space ∧ ∃ selector, t.selector = some selector ∧
      selector.pairs ≠ [] ∧ ∀ x ∈ selector.pairs, p.labels.get? x.1 = some x.2

/-- Whether the object concerns the node. A Pod concerns the node it is on. -/
def Concerns (v : Inventory) (kind : Kind) (t : Tracked) (node : String) : Prop :=
  node ≠ "" ∧ ((kind = .pod ∧ t.nodeName = some node) ∨
    ∃ k p, v.pods k = some p ∧ v.Owns kind t p ∧ p.nodeName = some node)

/-- Whether all lists have come that the object is to be looked for in. -/
def isListedFor (v : Inventory) (kind : Kind) (t : Tracked) : Bool :=
  match kind with
  | .pod => true
  | .service => t.selector.all Named.isEmpty || v.podsListed
  | .deployment => v.podsListed && v.setsListed
  | .nameSpace | .replicaSet | .replicationController => v.podsListed

end Inventory

/-! ## What the index gives -/

namespace PodIndex

variable {i : PodIndex} {p : PodRecord} {kind : Kind} {t : Tracked} {space : String} {field : Field}

def inventory (i : PodIndex) : Inventory :=
  ⟨i.pods.get?, i.replicaSets.get?, i.podsSynced, i.replicaSetsSynced⟩

theorem inventory_update (i : PodIndex) (u : Update) :
    (i.update u).inventory = i.inventory.update u := by
  have hlisted : ∀ ps, (Pods.ofList ps).get? = fun k => ps.reverse.find? fun p => p.key = k :=
    fun ps => funext (Pods.get?_ofList ps)
  have hlisted' : ∀ rs, (ReplicaSets.ofList rs).get? =
      fun u => rs.reverse.find? fun r => r.uid = u := fun rs => funext (ReplicaSets.get?_ofList rs)
  cases u with
  | applyPod p => simp only [inventory, update, applyPod, Inventory.update, ← Pods.get?_apply]
  | deletePod key => simp only [inventory, update, deletePod, Inventory.update, ← Pods.get?_delete]
  | replacePods ps => simp only [inventory, update, replacePods, Inventory.update, hlisted]
  | applyReplicaSet r =>
    simp only [inventory, update, applyReplicaSet, Inventory.update, ← ReplicaSets.get?_apply]
  | deleteReplicaSet uid =>
    simp only [inventory, update, deleteReplicaSet, Inventory.update, ← ReplicaSets.get?_delete]
  | replaceReplicaSets rs =>
    simp only [inventory, update, replaceReplicaSets, Inventory.update, hlisted']

theorem inventory_after (us : List Update) : (after us).inventory = Inventory.after us := by
  have hfold : ∀ i : PodIndex, (us.foldl update i).inventory =
      us.foldl Inventory.update i.inventory := by
    induction us with
    | nil => exact fun _ => rfl
    | cons u rest ih =>
      intro i
      rw [List.foldl_cons, ih, inventory_update, List.foldl_cons]
  exact hfold {}

theorem mem_ownerUids {u : String} : u ∈ p.ownerUids ↔ ∃ o ∈ p.owners, o.uid = u := by
  simp [PodRecord.ownerUids]

theorem mem_deploymentUids {r : ReplicaSetRecord} {u : String} :
    u ∈ r.deploymentUids ↔ ∃ d, r.deployment = some d ∧ d.uid = u := by
  simp [ReplicaSetRecord.deploymentUids]

theorem owns_iff (hm : Matcher.ofObject kind t = .indexed space field) (p : PodRecord) :
    i.inventory.Owns kind t p ↔ p.key.space = space ∧ field.Finds i.replicaSets p := by
  cases kind with
  | pod => contradiction
  | nameSpace =>
    cases hm
    simp [Inventory.Owns, Field.Finds]
  | replicaSet =>
    cases hm
    simp [Inventory.Owns, Field.Finds, mem_ownerUids]
  | replicationController =>
    cases hm
    simp [Inventory.Owns, Field.Finds, mem_ownerUids]
  | deployment =>
    cases hm
    simp only [Inventory.Owns, Field.Finds, mem_ownerUids, mem_deploymentUids, inventory]
    refine and_congr_right fun _ => ⟨?_, ?_⟩
    · rintro ⟨o, ho, r, d, hr, hd⟩
      exact ⟨o.uid, r, hr, ⟨d, hd⟩, o, ho, rfl⟩
    · rintro ⟨u, r, hr, ⟨d, hd⟩, o, ho, rfl⟩
      exact ⟨o, ho, r, d, hr, hd⟩
  | service =>
    simp only [Matcher.ofObject] at hm
    split at hm
    · next selector hs =>
      split at hm
      · contradiction
      · next he =>
        cases hm
        simp only [Named.isEmpty, List.isEmpty_iff] at he
        simp [Inventory.Owns, Field.Finds, hs, he, Labels.matches?, Named.isEmpty]
    · contradiction

theorem mem_ofPods {names : List (Option String)} {n : String} :
    n ∈ NodeSet.ofPods names ↔ n ≠ "" ∧ some n ∈ names := by
  unfold NodeSet.ofPods
  rw [NodeSet.mem_ofList, List.mem_filter, List.mem_filterMap]
  simp [and_comm]

theorem missingFor_eq_none_iff (hm : Matcher.ofObject kind t = .indexed space field) :
    i.missingFor field = none ↔ i.inventory.isListedFor kind t = true := by
  cases kind with
  | pod => contradiction
  | nameSpace | replicaSet | replicationController =>
    cases hm
    simp [missingFor, Inventory.isListedFor, inventory]
  | deployment =>
    cases hm
    cases hp : i.podsSynced <;>
      simp [missingFor, Inventory.isListedFor, inventory, hp]
  | service =>
    simp only [Matcher.ofObject] at hm
    split at hm
    · next selector hs =>
      split at hm
      · contradiction
      · next he =>
        cases hm
        simp [missingFor, Inventory.isListedFor, inventory, hs, he]
    · contradiction

theorem eq_pod_of_itself (hm : Matcher.ofObject kind t = .itself) : kind = .pod := by
  cases kind <;> simp only [Matcher.ofObject, reduceCtorEq] at hm ⊢
  split at hm
  · split at hm <;> contradiction
  · contradiction

theorem selects_nothing (hm : Matcher.ofObject kind t = .nothing) :
    kind = .service ∧ t.selector.all Named.isEmpty = true := by
  cases kind <;> simp only [Matcher.ofObject, reduceCtorEq] at hm
  split at hm
  · next selector hs =>
    split at hm
    · next he => simp [hs, he]
    · contradiction
  · next hs => simp [hs]

theorem Linked.mem_nodes (h : i.Linked) (hm : Matcher.ofObject kind t = .indexed space field)
    (n : String) : n ∈ NodeSet.ofPods ((i.related space field).map PodRecord.nodeName) ↔
      i.inventory.Concerns kind t n := by
  have hkind : kind ≠ .pod := by
    rintro rfl
    contradiction
  simp only [mem_ofPods, List.mem_map, h.mem_related, Inventory.Concerns, owns_iff hm, hkind,
    false_and, false_or]
  refine and_congr_right fun _ => ⟨?_, ?_⟩
  · rintro ⟨p, ⟨hp, hrest⟩, hn⟩
    exact ⟨p.key, p, hp, hrest, hn⟩
  · rintro ⟨k, p, hp, hrest, hn⟩
    obtain rfl := h.pods.keyed hp
    exact ⟨p, ⟨hp, hrest⟩, hn⟩

/-- The index gives an object the nodes that it concerns, once all lists have come that it is to be
looked for in, and fails before. -/
theorem Linked.resolve (h : i.Linked) (kind : Kind) (t : Tracked) :
    (i.inventory.isListedFor kind t = true → ∃ nodes, i.resolve kind t = .ok nodes ∧
      ∀ n, n ∈ nodes ↔ i.inventory.Concerns kind t n) ∧
    (i.inventory.isListedFor kind t = false → ∃ e, i.resolve kind t = .error e) := by
  unfold PodIndex.resolve
  cases hm : Matcher.ofObject kind t with
  | itself =>
    obtain rfl := eq_pod_of_itself hm
    refine ⟨fun _ => ⟨_, rfl, fun n => ?_⟩, fun hl => by contradiction⟩
    rw [mem_ofPods]
    simp [Inventory.Concerns, Inventory.Owns, eq_comm]
  | nothing =>
    obtain ⟨rfl, hs⟩ := selects_nothing hm
    have hnone : ∀ p, ¬i.inventory.Owns .service t p := by
      rintro p ⟨-, selector, hselector, hpairs, -⟩
      rw [hselector, Option.all_some, Named.isEmpty, List.isEmpty_iff] at hs
      exact hpairs hs
    refine ⟨fun _ => ⟨_, rfl, fun n => ?_⟩, fun hl => ?_⟩
    · have hempty : n ∉ (∅ : NodeSet) := List.not_mem_nil
      simp [Inventory.Concerns, hnone, hempty]
    · simp [Inventory.isListedFor, hs] at hl
  | indexed space field =>
    rw [← missingFor_eq_none_iff hm, ← Bool.not_eq_true, ← missingFor_eq_none_iff hm]
    cases hpart : i.missingFor field with
    | none =>
      refine ⟨fun _ => ⟨_, ?_, h.mem_nodes hm⟩, fun hno => absurd rfl hno⟩
      rw [Matcher.nodes, lookup, hpart]
      rfl
    | some part =>
      refine ⟨fun hno => by contradiction, fun _ => ⟨.indexNotSynced part, ?_⟩⟩
      rw [Matcher.nodes, lookup, hpart]
      rfl

/-- After any updates a cycle is told the nodes of its object that a look at all Pods gives. As long
as a list is missing it is told that they could not be found out. -/
theorem nodesOf_after (us : List Update) (kind : Kind) (key : Key) (t : Tracked) :
    ((Inventory.after us).isListedFor kind t = true →
      ∃ nodes, (after us).nodesOf kind key t = .ok nodes ∧
        ∀ n, n ∈ nodes ↔ (Inventory.after us).Concerns kind t n) ∧
    ((Inventory.after us).isListedFor kind t = false →
      (after us).nodesOf kind key t = .error (.resolve kind key)) := by
  obtain ⟨hlisted, hmissing⟩ := (linked_after us).resolve kind t
  rw [inventory_after] at hlisted hmissing
  constructor
  · intro hl
    obtain ⟨nodes, hr, hn⟩ := hlisted hl
    exact ⟨nodes, by rw [nodesOf, hr]; rfl, hn⟩
  · intro hl
    obtain ⟨e, he⟩ := hmissing hl
    rw [nodesOf, he]
    rfl

end PodIndex

end Nodecast
