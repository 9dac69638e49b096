import Nodecast.Proofs.PodIndex.Scan

/-!
# Look-ups among updates

A look-up reads the ReplicaSets and then the Pods, and updates come between. It finds the related
Pods of one moment, unless a Pod changes after a ReplicaSet did.
-/

namespace Nodecast.PodIndex

variable {i j : PodIndex} {u : Update} {us : List Update} {space : String} {field : Field}
  {p : PodRecord}

/-- A look-up with updates between its two steps. -/
def relatedAmid (i : PodIndex) (us : List Update) (space : String) (field : Field) :
    List PodRecord :=
  (us.foldl update i).podsFor space field (i.replicaSetsFor field)

/-- The look-up finds what was related at some moment from its first step to its last. -/
def OfOneMoment (i : PodIndex) (us : List Update) (space : String) (field : Field) : Prop :=
  ∃ before, before <+: us ∧ ∀ p,
    p ∈ i.relatedAmid us space field ↔ p ∈ (before.foldl update i).related space field

def Update.isPods : Update → Bool
  | .applyPod _ | .deletePod _ | .replacePods _ => true
  | .applyReplicaSet _ | .deleteReplicaSet _ | .replaceReplicaSets _ => false

/-! ## What an update leaves alone -/

theorem update_replicaSets (i : PodIndex) (hu : u.isPods = true) :
    (i.update u).replicaSets = i.replicaSets := by
  cases u <;> first | rfl | contradiction

theorem update_pods (i : PodIndex) (hu : u.isPods = false) : (i.update u).pods = i.pods := by
  cases u <;> first | rfl | contradiction

theorem update_pods_congr (h : i.pods = j.pods) (u : Update) :
    (i.update u).pods = (j.update u).pods := by
  cases u <;> simp [update, applyPod, deletePod, replacePods, applyReplicaSet, deleteReplicaSet,
    replaceReplicaSets, h]

theorem foldl_replicaSets (us : List Update) (i : PodIndex) :
    ((us.filter Update.isPods).foldl update i).replicaSets = i.replicaSets := by
  induction us generalizing i with
  | nil => rfl
  | cons u rest ih =>
    cases hu : u.isPods with
    | true => rw [List.filter_cons_of_pos hu, List.foldl_cons, ih, update_replicaSets i hu]
    | false => rw [List.filter_cons_of_neg (by simp [hu]), ih]

theorem foldl_pods (us : List Update) (h : i.pods = j.pods) :
    (us.foldl update i).pods = ((us.filter Update.isPods).foldl update j).pods := by
  induction us generalizing i j with
  | nil => exact h
  | cons u rest ih =>
    cases hu : u.isPods with
    | true =>
      rw [List.filter_cons_of_pos hu]
      exact ih (update_pods_congr h u)
    | false =>
      rw [List.filter_cons_of_neg (by simp [hu])]
      exact ih ((update_pods i hu).trans h)

/-! ## The two reads -/

theorem podsFor_congr (h : i.pods = j.pods) (space : String) (field : Field)
    (sets : List String) : i.podsFor space field sets = j.podsFor space field sets := by
  cases field <;> simp [podsFor, candidates, h]

theorem replicaSetsFor_congr (h : i.replicaSets = j.replicaSets) (field : Field) :
    i.replicaSetsFor field = j.replicaSetsFor field := by
  cases field <;> simp [replicaSetsFor, h]

theorem replicaSetsFor_eq (h : ∀ uid, field ≠ .deployment uid) (i j : PodIndex) :
    i.replicaSetsFor field = j.replicaSetsFor field := by
  cases field with
  | deployment uid => exact absurd rfl (h uid)
  | _ => rfl

/-- The look-up finds what it would find if the ReplicaSets were updated only afterwards. -/
theorem relatedAmid_eq (i : PodIndex) (us : List Update) (space : String) (field : Field) :
    i.relatedAmid us space field =
      ((us.filter Update.isPods).foldl update i).related space field := by
  have hpods := foldl_pods us (rfl : i.pods = i.pods)
  rw [relatedAmid, related, podsFor_congr hpods, replicaSetsFor_congr (foldl_replicaSets us i)]

theorem filter_prefix (h : us.Pairwise fun u v => v.isPods = true → u.isPods = true) :
    us.filter Update.isPods <+: us := by
  induction us with
  | nil => exact List.prefix_rfl
  | cons u rest ih =>
    obtain ⟨hfirst, hrest⟩ := List.pairwise_cons.1 h
    cases hu : u.isPods with
    | true =>
      rw [List.filter_cons_of_pos hu]
      exact (List.prefix_cons_inj u).2 (ih hrest)
    | false =>
      have hnone : rest.filter Update.isPods = [] :=
        List.filter_eq_nil_iff.2 fun v hv hpods => by simp [hfirst v hv hpods] at hu
      rw [List.filter_cons_of_neg (by simp [hu]), hnone]
      exact List.nil_prefix

theorem ofOneMoment_of_field (h : ∀ uid, field ≠ .deployment uid) (i : PodIndex)
    (us : List Update) : i.OfOneMoment us space field := by
  refine ⟨us, List.prefix_rfl, fun p => ?_⟩
  rw [relatedAmid, related, replicaSetsFor_eq h i (us.foldl update i)]

theorem ofOneMoment_of_pairwise
    (h : us.Pairwise fun u v => v.isPods = true → u.isPods = true) (i : PodIndex) :
    i.OfOneMoment us space field :=
  ⟨us.filter Update.isPods, filter_prefix h, fun p => by rw [relatedAmid_eq]⟩

theorem Linked.foldl (h : i.Linked) (us : List Update) :
    (us.foldl PodIndex.update i).Linked :=
  List.foldlRecOn us _ h fun _ h u _ => h.update u

theorem Linked.mem_relatedAmid (h : i.Linked) (hp : p ∈ i.related space field)
    (hsame : (us.foldl PodIndex.update i).pods.get? p.key = some p) :
    p ∈ i.relatedAmid us space field := by
  obtain ⟨-, hspace, hfinds⟩ := h.mem_related.1 hp
  have hpods := foldl_pods us (rfl : i.pods = i.pods)
  rw [relatedAmid_eq, (h.foldl _).mem_related, ← hpods, foldl_replicaSets]
  exact ⟨hsame, hspace, hfinds⟩

/-- A look-up finds what it would find if the updates of ReplicaSets that come between its two
steps came after it, and so all Pods that belonged to the field and did not change. This is what was
related at one moment for every field but a Deployment, and for a Deployment as long as no Pod is
updated after a ReplicaSet. -/
theorem relatedAmid_after (past us : List Update) (space : String) (field : Field) :
    (after past).relatedAmid us space field =
        (after (past ++ us.filter Update.isPods)).related space field ∧
      (∀ p ∈ (after past).related space field,
        (after (past ++ us)).pods.get? p.key = some p →
          p ∈ (after past).relatedAmid us space field) ∧
      ((∀ uid, field ≠ .deployment uid) → (after past).OfOneMoment us space field) ∧
      ((us.Pairwise fun u v => v.isPods = true → u.isPods = true) →
        (after past).OfOneMoment us space field) := by
  refine ⟨?_, ?_, fun h => ofOneMoment_of_field h _ us, fun h => ofOneMoment_of_pairwise h _⟩
  · rw [relatedAmid_eq, after, after, List.foldl_append]
  · intro p hp hsame
    rw [after, List.foldl_append] at hsame
    exact (linked_after past).mem_relatedAmid hp hsame

/-- A Deployment with one ReplicaSet and one Pod. -/
def beforeRollout : List Update :=
  [.replaceReplicaSets [⟨"r1", ⟨"default", "web-1"⟩, some ⟨"Deployment", "d", "web"⟩⟩],
    .replacePods [{ key := ⟨"default", "web-0"⟩, nodeName := some "a"
                    owners := [⟨"ReplicaSet", "r1", "web-1"⟩] }]]

/-- Its new ReplicaSet takes the Pod over. -/
def rollout : List Update :=
  [.applyReplicaSet ⟨"r2", ⟨"default", "web-2"⟩, some ⟨"Deployment", "d", "web"⟩⟩,
    .applyPod { key := ⟨"default", "web-0"⟩, nodeName := some "a"
                owners := [⟨"ReplicaSet", "r2", "web-2"⟩] }]

/-- If the Pod comes first, the look-up finds what is related between the two updates. -/
theorem relatedAmid_after_podFirst :
    (after beforeRollout).OfOneMoment rollout.reverse "default" (.deployment "d") := by
  obtain ⟨-, -, -, hmoment⟩ :=
    relatedAmid_after beforeRollout rollout.reverse "default" (.deployment "d")
  exact hmoment (by decide)

/-- At every moment the Deployment has the Pod, and the look-up finds none. -/
theorem not_ofOneMoment_rollout :
    (∀ before, before <+: rollout →
      ((before.foldl update (after beforeRollout)).related "default"
        (.deployment "d")).map PodRecord.nodeName = [some "a"]) ∧
      (after beforeRollout).relatedAmid rollout "default" (.deployment "d") = [] ∧
      ¬ (after beforeRollout).OfOneMoment rollout "default" (.deployment "d") := by
  have hmoments : ∀ before, before <+: rollout →
      ((before.foldl update (after beforeRollout)).related "default"
        (.deployment "d")).map PodRecord.nodeName = [some "a"] := by
    intro before hb
    simp only [rollout, List.prefix_cons_iff, List.prefix_nil] at hb
    obtain rfl | ⟨_, rfl, rfl | ⟨_, rfl, rfl⟩⟩ := hb <;> decide
  have hfound : (after beforeRollout).relatedAmid rollout "default" (.deployment "d") = [] := by
    decide
  refine ⟨hmoments, hfound, ?_⟩
  rintro ⟨before, hb, hsame⟩
  have hnone : (before.foldl update (after beforeRollout)).related "default"
      (.deployment "d") = [] :=
    List.eq_nil_iff_forall_not_mem.2 fun p hp => by simpa [hfound] using (hsame p).2 hp
  have hone := hmoments before hb
  rw [hnone] at hone
  contradiction

end Nodecast.PodIndex
