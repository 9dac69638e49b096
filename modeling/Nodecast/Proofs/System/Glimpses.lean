import Nodecast.Proofs.PodIndex.Scan
import Nodecast.Proofs.System.Moves

/-!
# What a cycle sees

A cycle sees its object and the nodes of the object. What it leaves in the cache when it succeeds
depends on nothing else.
-/

namespace Nodecast

variable {kind : Kind} {key : Key}

/-! ## Answers of the index -/

/-- What a cycle is told of the nodes. The index is asked whether it is complete, then for the
ReplicaSets, then for the Pods, and may change in between. -/
def PodIndex.answer (checked sets pods : PodIndex) (kind : Kind) (key : Key) (t : Tracked) :
    Except CycleError NodeSet :=
  ((Matcher.ofObject kind t).nodes t fun space field =>
    match checked.missingFor field with
    | some part => .error (ClusterError.indexNotSynced part)
    | none => .ok ((pods.podsFor space field (sets.replicaSetsFor field)).map
        PodRecord.nodeName)).mapError fun _ => .resolve kind key

theorem PodIndex.empty_not_mem_answer {checked sets pods : PodIndex} {t : Tracked}
    {nodes : NodeSet} (h : checked.answer sets pods kind key t = .ok nodes) : "" ∉ nodes := by
  have hpods : ∀ names, "" ∉ NodeSet.ofPods names := fun names hn => (mem_ofPods.1 hn).1 rfl
  unfold PodIndex.answer Matcher.nodes at h
  split at h
  · cases h
    exact hpods _
  · cases h
    exact List.not_mem_nil
  · dsimp only at h
    split at h
    · contradiction
    · cases h
      exact hpods _

/-! ## What a cycle sees -/

/-- What a cycle has seen of its object so far. -/
structure Glimpse where
  object : Option Tracked := none
  nodes : NodeSet := ∅

namespace Glimpse

def after (g : Glimpse) : Cycle.Move → Glimpse
  | .fetch (.ok object) => { g with object }
  | .resolve (.ok nodes) => { g with nodes }
  | _ => g

/-- What is to be cached of an object that looks like this. -/
def leaves (g : Glimpse) (kind : Kind) : Option Entry :=
  g.object.bind fun t =>
    if g.nodes.isEmpty then none else some ⟨kind, t.uid, t.metadata.fields, g.nodes⟩

theorem leaves_eq_some {g : Glimpse} {e : Entry} : g.leaves kind = some e ↔
    ∃ t, g.object = some t ∧ g.nodes.isEmpty = false ∧
      e = ⟨kind, t.uid, t.metadata.fields, g.nodes⟩ := by
  unfold leaves
  rw [Option.bind_eq_some_iff]
  cases g.nodes.isEmpty <;> simp [eq_comm]

end Glimpse

theorem left_transition_eq {prior : Option Entry} (hprior : ∀ e, prior = some e → e.kind = kind)
    (object : Tracked) (nodes : NodeSet) : (Collector.transition kind prior object nodes).left =
      Glimpse.leaves ⟨some object, nodes⟩ kind := by
  cases hn : nodes.isEmpty with
  | false => simp [left_transition hprior hn, Glimpse.leaves, hn]
  | true => cases prior <;> simp [Collector.transition, Entry.firstSeen, Entry.advance,
      Transition.left, Transition.isEmpty, Glimpse.leaves, hn]

namespace Cycle

/-- The cycle can fail no more. -/
def hasSucceeded (y : Cycle) : Bool :=
  match y.stage with
  | .pushing .. | .offering .. | .ended (.ok _) => true
  | _ => false

/-- What a cycle has seen when it comes to a stage. -/
def Saw (y : Cycle) (kind : Kind) (g : Glimpse) : Prop :=
  match y.stage with
  | .locking | .fetching => g = {}
  | .resolving object _ => g = { object := some object }
  | .committing _ step => step.left = g.leaves kind
  | .pushing .. | .offering .. | .ended _ => True

end Cycle

section Steps

variable {c c' : Collector} {hub hub' : Hub Event} {y y' : Cycle} {m : Cycle.Move} {g : Glimpse}
  {n commit : Nat}

theorem Collector.CycleStep.saw (h : c.CycleStep hub y m y' c' hub')
    (hy : y.Sound c hub n commit) (hkind : ∀ e, c.cache.get? y.key = some e → e.kind = c.kind)
    (hg : y.Saw c.kind g) : y'.Saw c.kind (g.after m) := by
  cases h with
  | lock cancelled hs =>
    simp only [Cycle.Saw, hs] at hg
    cases cancelled
    · exact hg
    · trivial
  | fetch answer hs =>
    simp only [Cycle.Saw, hs] at hg
    subst hg
    unfold Collector.fetched
    split
    · trivial
    · trivial
    · exact left_retire _
    · rfl
  | resolve object prior answer hs =>
    simp only [Cycle.Saw, hs] at hg
    simp only [Cycle.Sound, hs] at hy
    obtain ⟨-, rfl⟩ := hy
    subst hg
    cases answer with
    | error e => trivial
    | ok nodes => exact left_transition_eq hkind object nodes
  | cancel => trivial
  | commit hadPrior step cancelled hs =>
    cases cancelled <;> trivial
  | miss | find | offer | finish => trivial

theorem Collector.CycleStep.succeeds (h : c.CycleStep hub y m y' c' hub')
    (hy : y.Sound c hub n commit) (hg : y.Saw c.kind g) :
    (y.hasSucceeded = false ∧ y'.hasSucceeded = true ∧
      c'.cache.get? y.key = (g.after m).leaves c.kind) ∨
    (y'.hasSucceeded = y.hasSucceeded ∧ (y.hasSucceeded = true → g.after m = g) ∧
      c'.cache.get? y.key = c.cache.get? y.key) := by
  cases h with
  | lock cancelled hs =>
    have hno : y.hasSucceeded = false := by simp [Cycle.hasSucceeded, hs]
    cases cancelled <;> exact .inr ⟨hno.symm, fun _ => rfl, rfl⟩
  | fetch answer hs =>
    have hno : y.hasSucceeded = false := by simp [Cycle.hasSucceeded, hs]
    unfold Collector.fetched
    split
    · exact .inr ⟨hno.symm, fun _ => rfl, rfl⟩
    · next hnone =>
      simp only [Cycle.Saw, hs] at hg
      subst hg
      exact .inl ⟨hno, rfl, hnone⟩
    · exact .inr ⟨hno.symm, by simp [hno], rfl⟩
    · exact .inr ⟨hno.symm, by simp [hno], rfl⟩
  | resolve object prior answer hs =>
    have hno : y.hasSucceeded = false := by simp [Cycle.hasSucceeded, hs]
    cases answer <;> exact .inr ⟨hno.symm, by simp [hno], rfl⟩
  | cancel hs =>
    have hno : y.hasSucceeded = false := by
      rcases hs with hs | ⟨object, prior, hs⟩ <;> simp [Cycle.hasSucceeded, hs]
    exact .inr ⟨hno.symm, fun _ => rfl, rfl⟩
  | commit hadPrior step cancelled hs =>
    have hno : y.hasSucceeded = false := by simp [Cycle.hasSucceeded, hs]
    cases cancelled
    · simp only [Cycle.Sound, hs] at hy
      simp only [Cycle.Saw, hs] at hg
      have hget := get?_commit hy.2.1 step y.key
      rw [if_pos rfl, hg] at hget
      exact .inl ⟨hno, rfl, hget⟩
    · exact .inr ⟨hno.symm, fun _ => rfl, rfl⟩
  | miss _ _ _ hs | find _ _ _ _ _ hs | offer _ _ _ _ hs | finish _ hs =>
    have hyes : y.hasSucceeded = true := by simp [Cycle.hasSucceeded, hs]
    exact .inr ⟨hyes.symm, fun _ => rfl, rfl⟩

end Steps

end Nodecast
