import Nodecast.Table

/-!
# Buckets

A bucket holds the members that carry one label. No bucket is kept empty.
-/

namespace Nodecast

abbrev Buckets (κ : Type) := Table String (List κ)

namespace Buckets

variable {κ : Type} [DecidableEq κ]

def under (b : Buckets κ) (label : String) : List κ := b.getD label []

def link (b : Buckets κ) (label : String) (k : κ) : Buckets κ :=
  if k ∈ b.under label then b else b.insert label (b.under label ++ [k])

def unlink (b : Buckets κ) (label : String) (k : κ) : Buckets κ :=
  match (b.under label).filter (· ≠ k) with
  | [] => b.erase label
  | rest => b.insert label rest

def linkAll (b : Buckets κ) (labels : List String) (k : κ) : Buckets κ :=
  labels.foldl (fun b label => b.link label k) b

def unlinkAll (b : Buckets κ) (labels : List String) (k : κ) : Buckets κ :=
  labels.foldl (fun b label => b.unlink label k) b

/-! ## What a bucket holds -/

theorem mem_under_link {b : Buckets κ} {label l : String} {k a : κ} :
    a ∈ (b.link label k).under l ↔ a ∈ b.under l ∨ (l = label ∧ a = k) := by
  unfold link
  split
  · next h =>
    constructor
    · exact Or.inl
    · rintro (h' | ⟨rfl, rfl⟩)
      · exact h'
      · exact h
  · by_cases hl : l = label
    · subst hl
      simp [under, Table.getD]
    · simp [under, Table.getD, Table.get?_insert, hl]

theorem mem_under_unlink {b : Buckets κ} {label l : String} {k a : κ} :
    a ∈ (b.unlink label k).under l ↔ a ∈ b.under l ∧ ¬(l = label ∧ a = k) := by
  unfold unlink
  by_cases hl : l = label
  · subst hl
    split
    · next h =>
      have hk : ∀ x ∈ b.under l, x = k := by simpa [List.filter_eq_nil_iff] using h
      simp only [under, Table.getD, Table.get?_erase_self, Option.getD_none, List.not_mem_nil,
        true_and, false_iff, not_and, Classical.not_not]
      exact fun ha => hk a ha
    · simp [under, Table.getD]
  · split <;> simp [under, Table.getD, Table.get?_insert, Table.get?_erase, hl]

theorem mem_under_linkAll {b : Buckets κ} {labels : List String} {l : String} {k a : κ} :
    a ∈ (b.linkAll labels k).under l ↔ a ∈ b.under l ∨ (l ∈ labels ∧ a = k) := by
  induction labels generalizing b with
  | nil => simp [linkAll]
  | cons label rest ih =>
    have step : b.linkAll (label :: rest) k = (b.link label k).linkAll rest k := rfl
    rw [step, ih, mem_under_link, List.mem_cons, or_assoc, ← or_and_right]

theorem mem_under_unlinkAll {b : Buckets κ} {labels : List String} {l : String} {k a : κ} :
    a ∈ (b.unlinkAll labels k).under l ↔ a ∈ b.under l ∧ ¬(l ∈ labels ∧ a = k) := by
  induction labels generalizing b with
  | nil => simp [unlinkAll]
  | cons label rest ih =>
    have step : b.unlinkAll (label :: rest) k = (b.unlink label k).unlinkAll rest k := rfl
    rw [step, ih, mem_under_unlink, List.mem_cons, or_and_right, not_or, and_assoc]

end Buckets

end Nodecast
