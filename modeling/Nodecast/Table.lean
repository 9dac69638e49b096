/-!
# Tables

A table holds at most one value for a key. It remembers the order in which keys first came.
-/

namespace Nodecast

structure Table (κ : Type) (β : Type) where
  entries : List (κ × β)
  nodup : (entries.map Prod.fst).Nodup
deriving DecidableEq

namespace Table

variable {κ β γ : Type}

def empty : Table κ β := ⟨[], by simp⟩

instance : EmptyCollection (Table κ β) := ⟨empty⟩

instance : Inhabited (Table κ β) := ⟨empty⟩

def keys (t : Table κ β) : List κ := t.entries.map Prod.fst

def values (t : Table κ β) : List β := t.entries.map Prod.snd

def size (t : Table κ β) : Nat := t.entries.length

def isEmpty (t : Table κ β) : Bool := t.entries.isEmpty

theorem keys_nodup (t : Table κ β) : t.keys.Nodup := t.nodup

variable [DecidableEq κ]

/-! ## Looking up -/

def get? (t : Table κ β) (k : κ) : Option β := t.entries.lookup k

def contains (t : Table κ β) (k : κ) : Bool := (t.get? k).isSome

def getD (t : Table κ β) (k : κ) (fallback : β) : β := (t.get? k).getD fallback

/-! ## Storing -/

/-- A known key keeps its place, a new one goes to the end. -/
def put (k : κ) (v : β) : List (κ × β) → List (κ × β)
  | [] => [(k, v)]
  | (k', v') :: rest => if k' = k then (k, v) :: rest else (k', v') :: put k v rest

theorem keys_put (k : κ) (v : β) (l : List (κ × β)) :
    (put k v l).map Prod.fst =
      if k ∈ l.map Prod.fst then l.map Prod.fst else l.map Prod.fst ++ [k] := by
  induction l with
  | nil => simp [put]
  | cons p rest ih =>
    obtain ⟨k', v'⟩ := p
    by_cases h : k' = k
    · simp [put, h]
    · have h' : k ≠ k' := fun e => h e.symm
      simp only [put, h, if_false, List.map_cons, ih, List.mem_cons, h', false_or]
      split <;> simp

theorem nodup_put {k : κ} {v : β} {l : List (κ × β)} (h : (l.map Prod.fst).Nodup) :
    ((put k v l).map Prod.fst).Nodup := by
  rw [keys_put]
  split
  · exact h
  · next hk =>
    refine List.nodup_append.2 ⟨h, by simp, ?_⟩
    intro a ha b hb
    rw [List.mem_singleton] at hb
    intro e
    exact hk (hb ▸ e ▸ ha)

def insert (t : Table κ β) (k : κ) (v : β) : Table κ β := ⟨put k v t.entries, nodup_put t.nodup⟩

theorem keys_insert (t : Table κ β) (k : κ) (v : β) :
    (t.insert k v).keys = if k ∈ t.keys then t.keys else t.keys ++ [k] := keys_put k v t.entries

def erase (t : Table κ β) (k : κ) : Table κ β :=
  ⟨t.entries.filter (fun p => p.1 ≠ k), (List.filter_sublist.map _).nodup t.nodup⟩

/-- Changes the value of a known key and does nothing for any other. -/
def modify (t : Table κ β) (k : κ) (f : β → β) : Table κ β :=
  match t.get? k with
  | some v => t.insert k (f v)
  | none => t

/-- Later pairs win. -/
def ofList (l : List (κ × β)) : Table κ β := l.foldl (fun t p => t.insert p.1 p.2) empty

/-! ## What a look-up sees -/

@[simp] theorem get?_empty (k : κ) : (empty : Table κ β).get? k = none := rfl

theorem lookup_put (k a : κ) (v : β) (l : List (κ × β)) :
    (put k v l).lookup a = if a = k then some v else l.lookup a := by
  induction l with
  | nil =>
    by_cases h : a = k
    · simp [put, h]
    · simp [put, List.lookup_cons, beq_eq_false_iff_ne.2 h, h]
  | cons p rest ih =>
    obtain ⟨k', v'⟩ := p
    by_cases h : k' = k
    · subst h
      by_cases ha : a = k'
      · simp [put, ha]
      · simp [put, List.lookup_cons, beq_eq_false_iff_ne.2 ha, ha]
    · by_cases ha : a = k'
      · subst ha
        simp [put, h]
      · simp [put, h, List.lookup_cons, beq_eq_false_iff_ne.2 ha, ih]

theorem get?_insert (t : Table κ β) (k a : κ) (v : β) :
    (t.insert k v).get? a = if a = k then some v else t.get? a := lookup_put k a v t.entries

@[simp] theorem get?_insert_self (t : Table κ β) (k : κ) (v : β) :
    (t.insert k v).get? k = some v := by simp [get?_insert]

theorem get?_insert_of_ne (t : Table κ β) {k a : κ} (v : β) (h : a ≠ k) :
    (t.insert k v).get? a = t.get? a := by simp [get?_insert, h]

theorem lookup_filter_ne (k a : κ) (l : List (κ × β)) :
    (l.filter (fun p => p.1 ≠ k)).lookup a = if a = k then none else l.lookup a := by
  induction l with
  | nil => simp
  | cons p rest ih =>
    obtain ⟨k', v'⟩ := p
    by_cases h : k' = k
    · subst h
      by_cases ha : a = k'
      · simp [ha] at ih ⊢
        exact ih
      · simp [List.lookup_cons, beq_eq_false_iff_ne.2 ha, ha] at ih ⊢
        exact ih
    · by_cases ha : a = k'
      · subst ha
        simp [h]
      · simp [h, List.lookup_cons, beq_eq_false_iff_ne.2 ha] at ih ⊢
        exact ih

theorem get?_erase (t : Table κ β) (k a : κ) :
    (t.erase k).get? a = if a = k then none else t.get? a := lookup_filter_ne k a t.entries

@[simp] theorem get?_erase_self (t : Table κ β) (k : κ) : (t.erase k).get? k = none := by
  simp [get?_erase]

theorem get?_erase_of_ne (t : Table κ β) {k a : κ} (h : a ≠ k) :
    (t.erase k).get? a = t.get? a := by simp [get?_erase, h]

theorem get?_modify (t : Table κ β) (k a : κ) (f : β → β) :
    (t.modify k f).get? a = if a = k then (t.get? k).map f else t.get? a := by
  unfold modify
  split
  · next v h => simp [get?_insert, h]
  · next h =>
    split
    · next e => rw [e, h]; rfl
    · rfl

theorem mem_keys_iff (t : Table κ β) (k : κ) : k ∈ t.keys ↔ ∃ v, t.get? k = some v := by
  unfold keys get?
  induction t.entries with
  | nil => simp
  | cons p rest ih =>
    obtain ⟨k', v'⟩ := p
    by_cases h : k = k'
    · simp [h]
    · simp [List.lookup_cons, beq_eq_false_iff_ne.2 h, h] at ih ⊢
      exact ih

theorem mem_iff_lookup {l : List (κ × β)} (h : (l.map Prod.fst).Nodup) {k : κ} {v : β} :
    (k, v) ∈ l ↔ l.lookup k = some v := by
  induction l with
  | nil => simp
  | cons p rest ih =>
    obtain ⟨k', v'⟩ := p
    obtain ⟨hk', hrest⟩ := List.nodup_cons.1 h
    by_cases hk : k = k'
    · subst hk
      have hno : (k, v) ∉ rest := fun hm => hk' (List.mem_map.2 ⟨_, hm, rfl⟩)
      simp [hno, eq_comm]
    · simp [List.lookup_cons, beq_eq_false_iff_ne.2 hk, hk, ih hrest]

theorem mem_entries_iff {t : Table κ β} {k : κ} {v : β} :
    (k, v) ∈ t.entries ↔ t.get? k = some v := mem_iff_lookup t.nodup

theorem mem_values_iff {t : Table κ β} {v : β} : v ∈ t.values ↔ ∃ k, t.get? k = some v := by
  simp only [values, List.mem_map, Prod.exists, exists_eq_right, mem_entries_iff]

theorem contains_iff (t : Table κ β) (k : κ) : t.contains k = true ↔ k ∈ t.keys := by
  rw [mem_keys_iff, contains, Option.isSome_iff_exists]

end Table

/-- What is stored one by one is found as it was stored last. -/
theorem get?_foldl {σ κ ρ : Type} [DecidableEq κ] {store : σ → ρ → σ} {get? : σ → κ → Option ρ}
    {key : ρ → κ}
    (hstore : ∀ s r k, get? (store s r) k = if k = key r then some r else get? s k)
    (l : List ρ) (s : σ) (k : κ) :
    get? (l.foldl store s) k = (l.reverse.find? fun r => key r = k).or (get? s k) := by
  induction l generalizing s with
  | nil => rfl
  | cons r rest ih =>
    rw [List.foldl_cons, ih, hstore, List.reverse_cons, List.find?_append]
    by_cases hk : k = key r
    · subst hk
      simp
    · have hne : key r ≠ k := fun e => hk e.symm
      simp [hk, hne]

end Nodecast
