/-!
# Values by name

Each name has one value. Names are kept in increasing order, so equal collections are equal
values.
-/

namespace Nodecast

structure Named (β : Type) where
  pairs : List (String × β)
  sorted : (pairs.map Prod.fst).Pairwise (· < ·)
deriving DecidableEq

namespace Named

variable {β : Type}

def empty : Named β := ⟨[], .nil⟩

instance : EmptyCollection (Named β) := ⟨empty⟩

instance : Inhabited (Named β) := ⟨empty⟩

def isEmpty (l : Named β) : Bool := l.pairs.isEmpty

def get? (l : Named β) (name : String) : Option β := l.pairs.lookup name

/-! ## Adding a value -/

/-- The value of a known name is replaced. -/
def place (name : String) (value : β) : List (String × β) → List (String × β)
  | [] => [(name, value)]
  | (n, v) :: rest =>
    if name < n then (name, value) :: (n, v) :: rest
    else if name = n then (name, value) :: rest
    else (n, v) :: place name value rest

theorem mem_names_place {a name : String} {value : β} {l : List (String × β)} :
    a ∈ (place name value l).map Prod.fst ↔ a = name ∨ a ∈ l.map Prod.fst := by
  induction l with
  | nil => simp [place]
  | cons p rest ih =>
    obtain ⟨n, v⟩ := p
    unfold place
    split
    · simp
    · split
      · next h => simp [h]
      · simp only [List.map_cons, List.mem_cons, ih]
        exact or_left_comm

theorem sorted_place {name : String} {value : β} {l : List (String × β)}
    (h : (l.map Prod.fst).Pairwise (· < ·)) :
    ((place name value l).map Prod.fst).Pairwise (· < ·) := by
  induction l with
  | nil => simp [place]
  | cons p rest ih =>
    obtain ⟨n, v⟩ := p
    have hr := List.pairwise_cons.1 h
    unfold place
    split
    · next hn =>
      refine List.pairwise_cons.2 ⟨?_, h⟩
      intro a ha
      rcases List.mem_cons.1 ha with rfl | ha
      · exact hn
      · exact String.lt_trans hn (hr.1 a ha)
    · split
      · next he =>
        subst he
        exact h
      · next hlt hne =>
        refine List.pairwise_cons.2 ⟨?_, ih hr.2⟩
        intro a ha
        rcases mem_names_place.1 ha with rfl | ha
        · grind
        · exact hr.1 a ha

def insert (l : Named β) (name : String) (value : β) : Named β :=
  ⟨place name value l.pairs, sorted_place l.sorted⟩

theorem lookup_place {name a : String} {value : β} {l : List (String × β)} :
    (place name value l).lookup a = if a = name then some value else l.lookup a := by
  induction l with
  | nil =>
    by_cases h : a = name
    · simp [place, h]
    · simp [place, List.lookup_cons, beq_eq_false_iff_ne.2 h, h]
  | cons p rest ih =>
    obtain ⟨n, v⟩ := p
    unfold place
    by_cases ha : a = name
    · subst ha
      by_cases hlt : a < n
      · simp [hlt]
      · by_cases he : a = n
        · simp [he]
        · simp [hlt, he, List.lookup_cons, beq_eq_false_iff_ne.2 he, ih]
    · by_cases hlt : name < n
      · simp [hlt, List.lookup_cons, beq_eq_false_iff_ne.2 ha, ha]
      · by_cases he : name = n
        · subst he
          simp [List.lookup_cons, beq_eq_false_iff_ne.2 ha, ha]
        · by_cases hn : a = n
          · subst hn
            simp [hlt, he, ha]
          · simp [hlt, he, List.lookup_cons, beq_eq_false_iff_ne.2 hn, ih, ha]

theorem get?_insert (l : Named β) (name a : String) (value : β) :
    (l.insert name value).get? a = if a = name then some value else l.get? a := lookup_place

/-- Later pairs win. -/
def ofList (ps : List (String × β)) : Named β :=
  ps.foldl (fun l p => l.insert p.1 p.2) empty

end Named

end Nodecast
