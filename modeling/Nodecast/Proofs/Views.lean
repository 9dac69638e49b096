import Nodecast.Entry
import Nodecast.Proofs.Json.Unique
import Nodecast.Tracked

/-!
# What nodes see of an object

Nodes see seven members of the metadata. The text that is kept of an object tells two views apart
and nothing else, so a node is told of a change exactly when it sees one.
-/

namespace Nodecast

variable {α : Type} {m m' : Metadata}

/-! ## Members that may be missing -/

theorem Json.filter_optional (keep : String → Bool) (name : String) (toJson : α → Json)
    (o : Option α) : (Json.optional name toJson o).filter (fun p => keep p.1) =
      if keep name then Json.optional name toJson o else [] := by
  cases o with
  | none => simp [Json.optional]
  | some a => cases hk : keep name <;> simp [Json.optional, hk]

theorem Json.lookup_optional (name a : String) (toJson : α → Json) (o : Option α) :
    (Json.optional name toJson o).lookup a = if a = name then o.map toJson else none := by
  cases o with
  | none => simp [Json.optional]
  | some v =>
    by_cases h : a = name
    · simp [Json.optional, h]
    · simp [Json.optional, List.lookup_cons, beq_eq_false_iff_ne.2 h, h]

theorem Json.whole_optional {name : String} {toJson : α → Json} {o : Option α}
    (h : ∀ a, Whole (toJson a)) : ∀ p ∈ Json.optional name toJson o, Whole p.2 := by
  cases o with
  | none => simp [Json.optional]
  | some a => simpa [Json.optional] using h a

/-! ## Labels -/

theorem Labels.whole_toJson (l : Labels) : Json.Whole l.toJson := by
  apply Json.Whole.record
  intro p hp
  obtain ⟨q, -, rfl⟩ := List.mem_map.1 hp
  exact .text q.2

theorem Labels.toJson_inj {l l' : Labels} (h : l.toJson = l'.toJson) : l = l' := by
  unfold Labels.toJson at h
  obtain ⟨pairs, hs⟩ := l
  obtain ⟨pairs', hs'⟩ := l'
  have hinj : ∀ p q : String × String, (p.1, Json.text p.2) = (q.1, Json.text q.2) → p = q := by
    rintro ⟨a, b⟩ ⟨a', b'⟩ he
    simpa using he
  obtain rfl : pairs = pairs' := (List.map_inj_right hinj).1 (Json.record.inj h)
  rfl

namespace Metadata

/-! ## Views -/

/-- What nodes are told of an object. A map that is missing differs from an empty one. -/
structure View where
  annotations : Option Labels
  generation : Option Int
  labels : Option Labels
  name : Option String
  space : Option String
  selfLink : Option String
  uid : Option String
deriving DecidableEq

def view (m : Metadata) : View :=
  ⟨m.annotations, m.generation, m.labels, m.name, m.space, m.selfLink, m.uid⟩

def View.members (v : View) : List (String × Json) :=
  Json.optional "annotations" Labels.toJson v.annotations ++
  Json.optional "generation" .int v.generation ++
  Json.optional "labels" Labels.toJson v.labels ++
  Json.optional "name" .text v.name ++
  Json.optional "namespace" .text v.space ++
  Json.optional "selfLink" .text v.selfLink ++
  Json.optional "uid" .text v.uid

theorem kept_eq (m : Metadata) :
    m.members.filter (fun p => !volatileMembers.contains p.1) = m.view.members := by
  unfold members View.members view
  simp only [List.filter_append, Json.filter_optional fun name => !volatileMembers.contains name]
  simp [volatileMembers]

theorem fields_eq (m : Metadata) : m.fields = (Json.record m.view.members).print := by
  rw [fields, kept_eq]

theorem View.whole_members (v : View) : Json.Whole (.record v.members) := by
  apply Json.Whole.record
  unfold View.members
  simp only [List.mem_append]
  rintro p ((((((hp | hp) | hp) | hp) | hp) | hp) | hp)
  · exact Json.whole_optional Labels.whole_toJson p hp
  · exact Json.whole_optional Json.Whole.int p hp
  · exact Json.whole_optional Labels.whole_toJson p hp
  all_goals exact Json.whole_optional Json.Whole.text p hp

theorem View.members_inj {v v' : View} (h : v.members = v'.members) : v = v' := by
  have hlook : ∀ name, v.members.lookup name = v'.members.lookup name := fun name => by rw [h]
  have hannotations := hlook "annotations"
  have hgeneration := hlook "generation"
  have hlabels := hlook "labels"
  have hname := hlook "name"
  have hspace := hlook "namespace"
  have hlink := hlook "selfLink"
  have huid := hlook "uid"
  simp [View.members, List.lookup_append, Json.lookup_optional]
    at hannotations hgeneration hlabels hname hspace hlink huid
  have htext : ∀ a b, Json.text a = .text b → a = b := fun _ _ => Json.text.inj
  have hint : ∀ a b, Json.int a = .int b → a = b := fun _ _ => Json.int.inj
  have hmap : ∀ a b : Labels, a.toJson = b.toJson → a = b := fun _ _ => Labels.toJson_inj
  rw [Option.map_inj_right hmap] at hannotations hlabels
  rw [Option.map_inj_right hint] at hgeneration
  rw [Option.map_inj_right htext] at hname hspace hlink huid
  cases v
  cases v'
  subst hannotations hgeneration hlabels hname hspace hlink huid
  rfl

theorem view_eq_iff : m.view = m'.view ↔
    m.annotations = m'.annotations ∧ m.labels = m'.labels ∧ m.generation = m'.generation ∧
      m.name = m'.name ∧ m.space = m'.space ∧ m.selfLink = m'.selfLink ∧ m.uid = m'.uid := by
  unfold view
  rw [View.mk.injEq]
  constructor
  · rintro ⟨ha, hg, hl, hn, hs, hk, hu⟩
    exact ⟨ha, hl, hg, hn, hs, hk, hu⟩
  · rintro ⟨ha, hl, hg, hn, hs, hk, hu⟩
    exact ⟨ha, hg, hl, hn, hs, hk, hu⟩

theorem fields_eq_iff_view : m.fields = m'.fields ↔ m.view = m'.view := by
  rw [fields_eq, fields_eq]
  constructor
  · intro h
    have hrecord := Json.print_inj (View.whole_members _) (View.whole_members _) h
    exact View.members_inj (Json.record.inj hrecord)
  · intro h
    rw [h]

/-! ## Changes -/

/-- What is kept of an object that is on some nodes. -/
def entry (m : Metadata) (kind : Kind) (nodes : NodeSet) : Entry :=
  ⟨kind, m.uid.getD "", m.fields, nodes⟩

/-- Another uid shows in the text, so the text alone decides. -/
theorem pending_advance (m m' : Metadata) (kind : Kind) (nodes nodes' : NodeSet) :
    ((m.entry kind nodes).advance (m'.uid.getD "") m'.fields nodes').pending =
      pending nodes nodes' (m.view ≠ m'.view) := by
  unfold entry Entry.advance
  by_cases hv : m.view = m'.view
  · have hu := (view_eq_iff.1 hv).2.2.2.2.2.2
    simp [fields_eq_iff_view.2 hv, hu, hv]
  · have hf : m.fields ≠ m'.fields := fun hf => hv (fields_eq_iff_view.1 hf)
    simp [hf, hv]

/-- Two texts are equal exactly if nodes see the same, whatever else differs. So a node that stays
is told of a change exactly if its view of the object changed. -/
theorem fields_eq_iff (m m' : Metadata) :
    (m.fields = m'.fields ↔
      m.annotations = m'.annotations ∧ m.labels = m'.labels ∧ m.generation = m'.generation ∧
        m.name = m'.name ∧ m.space = m'.space ∧ m.selfLink = m'.selfLink ∧ m.uid = m'.uid) ∧
    ∀ kind nodes nodes' node,
      (node, .modified) ∈
          ((m.entry kind nodes).advance (m'.uid.getD "") m'.fields nodes').pending ↔
        node ∈ nodes ∧ node ∈ nodes' ∧ m.view ≠ m'.view := by
  refine ⟨fields_eq_iff_view.trans view_eq_iff, ?_⟩
  intro kind nodes nodes' node
  rw [pending_advance, mem_pending]
  unfold changeFor
  by_cases hnew : node ∈ nodes'
  · by_cases hold : node ∈ nodes
    · simp [hnew, hold]
    · simp [hnew, hold]
  · simp [hnew]

end Metadata

end Nodecast
