/-!
# Sets of node names

A set of names is a strictly increasing list, so equal sets are equal values.
-/

namespace Nodecast

structure NodeSet where
  names : List String
  sorted : names.Pairwise (· < ·)
deriving DecidableEq

namespace NodeSet

theorem sorted_nil : ([] : List String).Pairwise (· < ·) := .nil

def empty : NodeSet := ⟨[], sorted_nil⟩

instance : EmptyCollection NodeSet := ⟨empty⟩

instance : Inhabited NodeSet := ⟨empty⟩

instance : Membership String NodeSet := ⟨fun s n => n ∈ s.names⟩

theorem mem_def {n : String} {s : NodeSet} : n ∈ s ↔ n ∈ s.names := Iff.rfl

instance (n : String) (s : NodeSet) : Decidable (n ∈ s) := inferInstanceAs (Decidable (n ∈ s.names))

def isEmpty (s : NodeSet) : Bool := s.names.isEmpty

/-! ## Adding a name -/

def place (n : String) : List String → List String
  | [] => [n]
  | m :: rest => if n < m then n :: m :: rest else if n = m then m :: rest else m :: place n rest

@[simp] theorem mem_place {a n : String} {l : List String} : a ∈ place n l ↔ a = n ∨ a ∈ l := by
  induction l with
  | nil => simp [place]
  | cons m rest ih =>
    unfold place
    split
    · simp
    · split
      · next h => simp [h]
      · simp only [List.mem_cons, ih]
        exact or_left_comm

theorem sorted_place {n : String} {l : List String} (h : l.Pairwise (· < ·)) :
    (place n l).Pairwise (· < ·) := by
  induction l with
  | nil => simp [place]
  | cons m rest ih =>
    have hr := List.pairwise_cons.1 h
    unfold place
    split
    · next hn =>
      refine List.pairwise_cons.2 ⟨?_, h⟩
      intro a ha
      rcases List.mem_cons.1 ha with rfl | ha
      · exact hn
      · exact String.lt_trans hn (hr.1 a ha)
    · split
      · exact h
      · next hlt hne =>
        refine List.pairwise_cons.2 ⟨?_, ih hr.2⟩
        intro a ha
        rcases mem_place.1 ha with rfl | ha
        · grind
        · exact hr.1 a ha

def insert (s : NodeSet) (n : String) : NodeSet := ⟨place n s.names, sorted_place s.sorted⟩

@[simp] theorem mem_insert {a n : String} {s : NodeSet} : a ∈ s.insert n ↔ a = n ∨ a ∈ s :=
  mem_place

/-! ## From and to lists -/

def ofList : List String → NodeSet
  | [] => empty
  | n :: rest => (ofList rest).insert n

@[simp] theorem mem_ofList {a : String} {l : List String} : a ∈ ofList l ↔ a ∈ l := by
  induction l with
  | nil => simp [ofList, empty, mem_def]
  | cons n rest ih => simp [ofList, ih]

def union (s t : NodeSet) : NodeSet := s.names.foldr (fun n u => u.insert n) t

@[simp] theorem mem_union {a : String} {s t : NodeSet} : a ∈ s.union t ↔ a ∈ s ∨ a ∈ t := by
  unfold union
  rw [mem_def (s := s)]
  induction s.names with
  | nil => simp
  | cons n rest ih => simp [ih, or_assoc]

end NodeSet

end Nodecast
