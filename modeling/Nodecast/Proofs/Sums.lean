import Nodecast.Table

/-!
# Sums over a table

The values of a table are weighed and the weights added up. What one key adds to the sum can be
told apart from the rest.
-/

namespace Nodecast

namespace Table

variable {κ β : Type} {t : Table κ β} {k k' : κ} {v v' : β}

def total (f : β → Nat) : List β → Nat
  | [] => 0
  | v :: vs => f v + total f vs

def weigh (f : β → Nat) (t : Table κ β) : Nat := total f t.values

theorem weigh_eq_zero {f : β → Nat} : t.weigh f = 0 ↔ ∀ v ∈ t.values, f v = 0 := by
  unfold weigh
  induction t.values with
  | nil => simp [total]
  | cons v vs ih => simp [total, ih]

theorem weigh_congr {f g : β → Nat} (h : ∀ v ∈ t.values, f v = g v) : t.weigh f = t.weigh g := by
  unfold weigh
  revert h
  induction t.values with
  | nil => exact fun _ => rfl
  | cons v vs ih =>
    intro h
    obtain ⟨hv, hvs⟩ := List.forall_mem_cons.1 h
    rw [total, total, hv, ih hvs]

variable [DecidableEq κ]

theorem total_of_lookup (f : β → Nat) {l : List (κ × β)} (hnodup : (l.map Prod.fst).Nodup)
    (h : l.lookup k = some v) :
    total f (l.map Prod.snd) =
      f v + total f ((l.filter fun p => p.1 ≠ k).map Prod.snd) := by
  induction l with
  | nil => contradiction
  | cons p l ih =>
    obtain ⟨a, b⟩ := p
    rw [List.map_cons, List.nodup_cons] at hnodup
    by_cases hk : k = a
    · subst hk
      rw [List.lookup_cons_self, Option.some.injEq] at h
      subst h
      have hrest : l.filter (fun p => p.1 ≠ k) = l := by
        rw [List.filter_eq_self]
        intro p hp
        have hne : p.1 ≠ k := fun e => hnodup.1 (List.mem_map.2 ⟨p, hp, e⟩)
        simp [hne]
      rw [List.filter_cons_of_neg (by simp), hrest, List.map_cons, total]
    · have hlook : l.lookup k = some v := by
        rw [List.lookup_cons, beq_false_of_ne hk] at h
        exact h
      have hak : a ≠ k := fun e => hk e.symm
      rw [List.filter_cons_of_pos (by simp [hak])]
      simp only [List.map_cons, total, ih hnodup.2 hlook]
      omega

theorem weigh_eq (f : β → Nat) (h : t.get? k = some v) :
    t.weigh f = f v + (t.erase k).weigh f := total_of_lookup f t.nodup h

theorem le_weigh (f : β → Nat) (h : t.get? k = some v) : f v ≤ t.weigh f := by
  rw [weigh_eq f h]
  omega

theorem add_le_weigh (f : β → Nat) (h : t.get? k = some v) (h' : t.get? k' = some v')
    (hne : k' ≠ k) : f v + f v' ≤ t.weigh f := by
  have hleft : (t.erase k).get? k' = some v' := by rw [get?_erase_of_ne _ hne, h']
  have hle := le_weigh f hleft
  rw [weigh_eq f h]
  omega

/-! ## Storing -/

theorem filter_put (k : κ) (v : β) (l : List (κ × β)) :
    (put k v l).filter (fun p => p.1 ≠ k) = l.filter fun p => p.1 ≠ k := by
  induction l with
  | nil => simp [put]
  | cons p rest ih =>
    by_cases h : p.1 = k
    · simp [put, h]
    · rw [put, if_neg h, List.filter_cons_of_pos (by simpa using h),
        List.filter_cons_of_pos (by simpa using h), ih]

theorem weigh_insert (f : β → Nat) (t : Table κ β) (k : κ) (v : β) :
    (t.insert k v).weigh f = f v + (t.erase k).weigh f := by
  have herase : (t.insert k v).erase k = t.erase k := by
    unfold erase insert
    simp only [filter_put]
  rw [weigh_eq f (get?_insert_self t k v), herase]

theorem erase_of_none (h : t.get? k = none) : t.erase k = t := by
  have hall : t.entries.filter (fun p => p.1 ≠ k) = t.entries := by
    rw [List.filter_eq_self]
    intro p hp
    have hne : p.1 ≠ k := by
      rintro rfl
      rw [mem_entries_iff.1 hp] at h
      contradiction
    simp [hne]
  unfold erase
  simp only [hall]

theorem weigh_insert_new (f : β → Nat) (v : β) (h : t.get? k = none) :
    (t.insert k v).weigh f = f v + t.weigh f := by
  rw [weigh_insert, erase_of_none h]

theorem weigh_erase_le (f : β → Nat) (t : Table κ β) (k : κ) : (t.erase k).weigh f ≤ t.weigh f := by
  cases h : t.get? k with
  | some v =>
    rw [weigh_eq f h]
    exact Nat.le_add_left _ _
  | none => exact Nat.le_of_eq (by rw [erase_of_none h])

theorem weigh_replace (f : β → Nat) (v' : β) (h : t.get? k = some v) :
    (t.insert k v').weigh f + f v = t.weigh f + f v' := by
  rw [weigh_insert, weigh_eq f h]
  omega

theorem weigh_modify (f : β → Nat) (g : β → β) (h : t.get? k = some v) :
    (t.modify k g).weigh f + f v = t.weigh f + f (g v) := by
  simp only [modify, h]
  exact weigh_replace f (g v) h

end Table

end Nodecast
